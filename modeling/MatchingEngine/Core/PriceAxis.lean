import MatchingEngine.Core.Surgery

/-!
# The price axis

`ensure_index_for_price`: the first order opens the axis around its price, and an order
outside it makes it grow. Growing at the front moves every level, so it shifts both cursors
and the level number in every entry of the index.

None of this changes an order (`Regrown`), and the level that is returned is that of the
price (`Leveled`). A price computation may overflow; for prices of 32 bits it does not
(`Moderate`), however often the axis has grown.
-/

namespace MatchingEngine

open Foundation Function OrderBookV2

variable {s : OrderBookV2} {c : Layout} {i x : ℕ}

/-! ### Moderate prices -/

/-- The base of the price axis is far from both ends of `int64_t`. -/
structure BaseOk (s : OrderBookV2) : Prop where
  /-- The window is an `int64_t`. -/
  window : InI64 s.initialWindow
  /-- Where the axis may begin. -/
  base : s.haveBase = true → -2 ^ 62 ≤ s.base ∧ s.base ≤ 2 ^ 32

/-- **Price computations stay far from overflow**: a price of 32 bits, on an axis that only ever
saw such prices. -/
def Moderate (s : OrderBookV2) (p : ℤ) : Prop := BaseOk s ∧ 0 ≤ p ∧ p < 2 ^ 32

/-- The book `s'`, with the layout `c'`, has the orders of `s`, perhaps on a longer axis. -/
structure Regrown (p : ℤ) (s : OrderBookV2) (c : Layout) (s' : OrderBookV2) (c' : Layout) : Prop where
  /-- The representation is kept. -/
  settled : Settled s' c'
  /-- The orders are the same ones. -/
  book : s'.bookOf c' = s.bookOf c
  /-- So is what the index names. -/
  tracked : Tracked s c → Tracked s' c'
  /-- The arena does not change. -/
  arena : s'.freeList = s.freeList ∧ s'.arenaBump = s.arenaBump ∧ s'.arenaCapacity = s.arenaCapacity
  /-- Neither does the window. -/
  window : s'.initialWindow = s.initialWindow
  /-- The new base is as moderate as the old one. -/
  base : Moderate s p → BaseOk s'

theorem Regrown.refl {p : ℤ} (h : Settled s c) : Regrown p s c s c :=
  ⟨h, rfl, id, ⟨rfl, rfl, rfl⟩, rfl, fun hm => hm.1⟩

theorem Regrown.trans {p : ℤ} {s₁ s₂ : OrderBookV2} {c₁ c₂ : Layout} (h : Regrown p s c s₁ c₁)
    (h' : Regrown p s₁ c₁ s₂ c₂) : Regrown p s c s₂ c₂ where
  settled := h'.settled
  book := h'.book.trans h.book
  tracked := fun t => h'.tracked (h.tracked t)
  arena := ⟨h'.arena.1.trans h.arena.1, h'.arena.2.1.trans h.arena.2.1, h'.arena.2.2.trans h.arena.2.2⟩
  window := h'.window.trans h.window
  base := fun hm => h'.base ⟨h.base hm, hm.2⟩

theorem ends_i64 {ov : Prop} {y : ℤ} (h : ¬ ov → InI64 y) : Ends (fun u => u = .overflow ∧ ov) (i64 y) (· = y) := by
  rw [i64]
  split_ifs with hy
  · rfl
  · exact ⟨rfl, not_not.mp fun hov => hy (h hov)⟩

theorem inI64_of_i64 {x y : ℤ} (h : i64 x = .ok y) : InI64 y := by
  rw [i64] at h
  split_ifs at h with hx
  rwa [← Except.ok.inj h]

theorem eq_of_i64 {x y : ℤ} (h : i64 x = .ok y) : y = x := by
  rw [i64] at h
  split_ifs at h
  exact (Except.ok.inj h).symm

/-- Half a window, whatever its sign. -/
theorem half_window {w : ℤ} (hw : InI64 w) : -2 ^ 62 ≤ w.tdiv 2 ∧ w.tdiv 2 ≤ 2 ^ 62 := by
  obtain ⟨h1, h2⟩ := hw
  rcases le_or_gt 0 w with h | h
  · rw [Int.tdiv_eq_ediv_of_nonneg h]
    omega
  · have hneg : w.tdiv 2 = -((-w).tdiv 2) := by rw [Int.neg_tdiv, neg_neg]
    rw [hneg, Int.tdiv_eq_ediv_of_nonneg (by omega)]
    omega

/-! ### Opening the axis -/

/-- Without a price axis there are no orders. -/
theorem Represents.eq_nil (h : Represents s c) (hl : s.levels = []) (j : ℕ) : c j = [] := by
  by_contra hj
  have := h.lt_length hj
  rw [hl] at this
  cases this

theorem level_replicate (n : ℕ) (hl : s.levels = List.replicate n {}) (j : ℕ) : s.level j = {} := by
  rw [OrderBookV2.level, hl, List.getD_eq_getElem?_getD, List.getElem?_replicate]
  split_ifs <;> rfl

/-- An axis without orders, wherever it begins. -/
theorem Settled.opened_at (h : Settled s c) (hl : s.levels = []) (base : ℤ) (n : ℕ) (hb : Bool)
    (hn : hb = false → n = 0) (ho : hb = true → WindowFits s.initialWindow) :
    Settled { s with base := base, haveBase := hb, levels := List.replicate n {} } c ∧
      { s with base := base, haveBase := hb, levels := List.replicate n {} }.bookOf c = s.bookOf c := by
  have hnil := h.toRepresents.eq_nil hl
  refine ⟨{ h with
    level := fun j => ?_
    price := fun j hj => absurd (hnil j) hj
    unopened := fun hf => by rw [hn hf]; rfl
    opened := ho }, ?_⟩
  · rw [level_replicate n rfl]
    have := h.level j
    rw [OrderBookV2.level, hl] at this
    exact this
  · have hq : ∀ (t : OrderBookV2) (j : ℕ), t.queue c j = [] := fun t j => queue_eq_nil.mpr (hnil j)
    apply Book.ext
    · rw [bookOf, bookOf, down_eq_nil fun j _ => hq _ j, down_eq_nil fun j _ => hq _ j]
    · rw [bookOf, bookOf, up_eq_nil fun j _ _ => hq _ j, up_eq_nil fun j _ _ => hq _ j]

/-- **Opening the price axis.** -/
theorem Settled.openWindow (h : Settled s c) (p : ℤ) :
    Ends (fun u => u = .overflow ∧ ¬ Moderate s p) (s.openWindow p) fun r =>
      Regrown p s c r.2 c ∧ (r.1 = none → r.2.haveBase = true) ∧ ∀ e, r.1 = some e → e = .lengthError := by
  rw [OrderBookV2.openWindow]
  by_cases hb : s.haveBase = true
  · rw [if_pos hb]
    exact ⟨Regrown.refl h, fun _ => hb, fun e he => absurd he (by simp)⟩
  · have hb' : s.haveBase = false := by simpa using hb
    have hl := h.unopened hb'
    rw [if_neg hb]
    have hsub : ¬ ¬ Moderate s p → InI64 (p - s.initialWindow.tdiv 2) := by
      intro hm
      obtain ⟨hbo, h1, h2⟩ := not_not.mp hm
      have := half_window hbo.window
      rw [InI64]
      omega
    refine Ends.bind (ends_i64 hsub) fun base hbase => ?_
    split_ifs with hw
    · obtain ⟨h1, h2⟩ := h.opened_at hl base s.initialWindow.toNat true (fun hf => absurd hf (by decide)) fun _ => hw
      refine ⟨⟨h1, h2, fun t => ⟨t.find, t.size⟩, ⟨rfl, rfl, rfl⟩, rfl, fun hm => ⟨hm.1.window, fun _ => ?_⟩⟩,
        fun _ => rfl, fun e he => absurd he (by simp)⟩
      obtain ⟨hbo, h1, h2⟩ := hm
      have := half_window hbo.window
      have : 0 ≤ s.initialWindow.tdiv 2 := Int.tdiv_nonneg hw.1 (by decide)
      show -2 ^ 62 ≤ base ∧ base ≤ 2 ^ 32
      omega
    · have he : { s with base := base } = { s with base := base, haveBase := false, levels := List.replicate 0 {} } := by
        rw [List.replicate_zero, ← hl, ← hb']
      obtain ⟨h1, h2⟩ := h.opened_at hl base 0 false (fun _ => rfl) (fun hf => absurd hf (by decide))
      rw [← he] at h1 h2
      refine ⟨⟨h1, h2, fun t => ⟨t.find, t.size⟩, ⟨rfl, rfl, rfl⟩, rfl, fun hm => ⟨hm.1.window, fun hf => ?_⟩⟩,
        fun hn => absurd hn (by simp), fun e he => (Option.some.inj he).symm⟩
      exact absurd hf hb

/-! ### Growing the axis -/

/-- The book after its levels have moved up by `k`. -/
def shifted (s : OrderBookV2) (k : ℕ) : OrderBookV2 :=
  { s with
    levelArrayGrowths := s.levelArrayGrowths + 1
    levels := List.replicate k {} ++ s.levels
    base := s.base - k
    bestBidIdx := if 0 ≤ s.bestBidIdx then s.bestBidIdx + k else s.bestBidIdx
    bestAskIdx := if 0 ≤ s.bestAskIdx then s.bestAskIdx + k else s.bestAskIdx
    index := s.index.forEachMut fun e => { e with levelIdx := e.levelIdx + k } }

theorem level_shifted (k j : ℕ) : (shifted s k).level j = if j < k then {} else s.level (j - k) := by
  simp only [OrderBookV2.level, shifted, List.getD_eq_getElem?_getD, List.getElem?_append, List.length_replicate,
    List.getElem?_replicate]
  split_ifs <;> rfl

theorem queue_shifted (k : ℕ) : (shifted s k).queue (shiftUp k c) = shiftUp k (s.queue c) := by
  funext j
  rw [queue, shiftUp, shiftUp]
  split_ifs with hj
  · rfl
  · refine List.map_congr_left fun x _ => ?_
    have he : s.base - k + (j : ℤ) = s.base + (j - k : ℕ) := by omega
    show (⟨_, s.base - k + (j : ℤ), _⟩ : Order ℤ OrderId) = _
    rw [he]
    rfl

theorem Partition.shiftUp {freeList : List ℕ} {bump : ℕ} (hp : Partition freeList bump c) (k : ℕ) :
    Partition freeList bump (shiftUp k c) := by
  refine ⟨hp.free_nodup, fun j => ?_, fun h1 h2 => ?_, fun hy hm => ?_, fun y => ?_⟩
  · rw [Foundation.shiftUp]
    split_ifs
    · exact List.nodup_nil
    · exact hp.nodup _
  · obtain ⟨i, rfl, h1'⟩ := mem_shiftUp.mp h1
    obtain ⟨i', rfl, h2'⟩ := mem_shiftUp.mp h2
    rw [hp.apart h1' h2']
  · obtain ⟨i, -, hm'⟩ := mem_shiftUp.mp hm
    exact hp.free_apart hy hm'
  · refine (hp.lt_iff y).trans (or_congr_right ⟨?_, ?_⟩)
    · rintro ⟨i, hi⟩
      exact ⟨i + k, by rwa [shiftUp_add]⟩
    · rintro ⟨j, hj⟩
      obtain ⟨i, rfl, hi⟩ := mem_shiftUp.mp hj
      exact ⟨i, hi⟩

theorem Cursors.shifted {bid ask : ℤ} (hc : Cursors bid ask c) (k : ℕ) :
    Cursors (if 0 ≤ bid then bid + k else bid) (if 0 ≤ ask then ask + k else ask) (shiftUp k c) := by
  have hbid := hc.bid_ge
  have hask := hc.ask_ge
  refine ⟨?_, ?_, fun ha => ?_, fun j hj => ?_⟩
  · split_ifs <;> omega
  · split_ifs <;> omega
  · have := hc.uncrossed
    split_ifs at ha ⊢ <;> omega
  · obtain ⟨i, rfl, hi⟩ := shiftUp_ne_nil hj
    have := hc.split i hi
    split_ifs <;> omega

theorem EntryOk.shifted {arena : ℕ → Node} {bid : ℤ} {id : OrderId} {e : IndexEntry} (he : EntryOk arena bid c id e)
    (hbid : -1 ≤ bid) (k : ℕ) :
    EntryOk arena (if 0 ≤ bid then bid + k else bid) (shiftUp k c) id { e with levelIdx := e.levelIdx + k } := by
  have h0 := he.nonneg
  have hl : (e.levelIdx + (k : ℤ)).toNat = e.levelIdx.toNat + k := by omega
  refine ⟨?_, ?_, he.id, ?_⟩
  · show 0 ≤ e.levelIdx + (k : ℤ)
    omega
  · show e.nodeIdx ∈ Foundation.shiftUp k c (e.levelIdx + (k : ℤ)).toNat
    rw [hl, shiftUp_add]
    exact he.mem
  · show e.side = .buy ↔ e.levelIdx + (k : ℤ) ≤ if 0 ≤ bid then bid + (k : ℤ) else bid
    rw [he.side]
    split_ifs <;> omega

theorem Represents.shifted (h : Represents s c) (k : ℕ) (ho : s.haveBase = true) :
    Represents (shifted s k) (shiftUp k c) := by
  refine { capacity := h.capacity
           bump_le := h.bump_le
           partition := h.partition.shiftUp k
           level := fun j => ?_
           cursors := h.cursors.shifted k
           entry := fun {id e} he => ?_
           price := fun j hj => ?_
           unopened := fun hb => absurd (ho.symm.trans hb) (by decide)
           opened := h.opened }
  · rw [level_shifted, shiftUp]
    split_ifs with hj
    · exact ⟨trivial, rfl, rfl, rfl⟩
    · exact h.level _
  · have he : (s.index.forEachMut fun e => { e with levelIdx := e.levelIdx + k }).find id = some e := he
    rw [FlatHashMap.find_forEachMut] at he
    obtain ⟨e₀, he₀, rfl⟩ := Option.map_eq_some_iff.mp he
    exact (h.entry he₀).shifted h.cursors.bid_ge k
  · obtain ⟨i, rfl, hi⟩ := shiftUp_ne_nil hj
    have he : s.base - k + ((i + k : ℕ) : ℤ) = s.base + i := by omega
    show InI64 (s.base - k + ((i + k : ℕ) : ℤ))
    rw [he]
    exact h.price i hi

/-- Levels added at the front move what the levels hold along. -/
theorem Represents.sides_shifted {α : Type*} (h : Represents s c) (hl : Live s c) (k : ℕ) (q : ℕ → List α) (side : Side) :
    (MatchingEngine.shifted s k).sides (shiftUp k q) side = s.sides q side := by
  have hcut := h.cut_eq
  have hcl := cut_le_length h hl
  have hbid := h.cursors.bid_ge
  have hlen : (MatchingEngine.shifted s k).levels.length = k + s.levels.length := by
    simp [MatchingEngine.shifted]
  have hcut' : (MatchingEngine.shifted s k).cut = if 0 ≤ s.bestBidIdx then s.cut + k else 0 := by
    show ((if 0 ≤ s.bestBidIdx then s.bestBidIdx + (k : ℤ) else s.bestBidIdx) + 1).toNat = _
    split_ifs <;> omega
  by_cases hb0 : 0 ≤ s.bestBidIdx
  · rw [if_pos hb0] at hcut'
    cases side with
    | buy => rw [sides, hcut', down_shiftUp, sides]
    | sell =>
      have he : k + s.levels.length - (s.cut + k) = s.levels.length - s.cut := by omega
      rw [sides, hcut', hlen, he, up_shiftUp, sides]
  · have hc0 : s.cut = 0 := by omega
    rw [if_neg hb0] at hcut'
    cases side with
    | buy =>
      rw [sides, hcut', sides, hc0]
      rfl
    | sell =>
      have hlow : ∀ j, 0 ≤ j → j < k → shiftUp k q j = [] := fun j _ hj => by rw [shiftUp, if_pos hj]
      have he : k + s.levels.length - k = s.levels.length - 0 := by omega
      have hup := up_shiftUp k q (s.levels.length - 0) 0
      rw [Nat.zero_add] at hup
      rw [sides, hcut', hlen, up_skip (Nat.zero_le k) (by omega) hlow, he, hup, sides, hc0]

/-- **Levels added at the front** change no order. -/
theorem Settled.shifted (h : Settled s c) (k : ℕ) (ho : s.haveBase = true) :
    Settled (shifted s k) (shiftUp k c) ∧ (MatchingEngine.shifted s k).bookOf (shiftUp k c) = s.bookOf c := by
  refine ⟨⟨h.toRepresents.shifted k ho, fun hb => ?_, fun ha => ?_⟩, ?_⟩
  · have hb : 0 ≤ if 0 ≤ s.bestBidIdx then s.bestBidIdx + (k : ℤ) else s.bestBidIdx := hb
    show shiftUp k c (if 0 ≤ s.bestBidIdx then s.bestBidIdx + (k : ℤ) else s.bestBidIdx).toNat ≠ []
    have hb0 : 0 ≤ s.bestBidIdx := by split_ifs at hb <;> omega
    rw [if_pos hb0]
    have he : (s.bestBidIdx + (k : ℤ)).toNat = s.bestBidIdx.toNat + k := by omega
    rw [he, shiftUp_add]
    exact h.bid hb0
  · have ha : 0 ≤ if 0 ≤ s.bestAskIdx then s.bestAskIdx + (k : ℤ) else s.bestAskIdx := ha
    show shiftUp k c (if 0 ≤ s.bestAskIdx then s.bestAskIdx + (k : ℤ) else s.bestAskIdx).toNat ≠ []
    have ha0 : 0 ≤ s.bestAskIdx := by split_ifs at ha <;> omega
    rw [if_pos ha0]
    have he : (s.bestAskIdx + (k : ℤ)).toNat = s.bestAskIdx.toNat + k := by omega
    rw [he, shiftUp_add]
    exact h.ask ha0
  · apply Book.ext
    · have := h.toRepresents.sides_shifted h.toLive k (s.queue c) .buy
      rwa [← queue_shifted] at this
    · have := h.toRepresents.sides_shifted h.toLive k (s.queue c) .sell
      rwa [← queue_shifted] at this

theorem Tracked.shifted (t : Tracked s c) (k : ℕ) : Tracked (shifted s k) (shiftUp k c) where
  find := by
    intro j x hx
    obtain ⟨i, rfl, hx'⟩ := mem_shiftUp.mp hx
    obtain ⟨e, he, hn⟩ := t.find hx'
    refine ⟨{ e with levelIdx := e.levelIdx + k }, ?_, hn⟩
    show (s.index.forEachMut _).find (s.arena x).id = _
    rw [FlatHashMap.find_forEachMut, he]
    rfl
  size := t.size

/-- The book after levels have been added at the back. -/
def extended (s : OrderBookV2) (n : ℕ) : OrderBookV2 :=
  { s with
    levelArrayGrowths := s.levelArrayGrowths + 1
    levels := s.levels ++ List.replicate n {} }

theorem level_extended (n j : ℕ) : (extended s n).level j = s.level j := by
  simp only [OrderBookV2.level, extended, List.getD_eq_getElem?_getD, List.getElem?_append, List.getElem?_replicate]
  by_cases hj : j < s.levels.length
  · rw [if_pos hj]
  · rw [if_neg hj, List.getElem?_eq_none (l := s.levels) (by omega)]
    split_ifs <;> rfl

/-- Levels added at the back hold nothing. -/
theorem Represents.sides_extended {α : Type*} (h : Represents s c) (hl : Live s c) (n : ℕ) {q : ℕ → List α}
    (hq : ∀ j, c j = [] → q j = []) (side : Side) :
    (MatchingEngine.extended s n).sides q side = s.sides q side := by
  have hcl := cut_le_length h hl
  cases side with
  | buy => rfl
  | sell =>
    have hlen : (MatchingEngine.extended s n).levels.length - s.cut = (s.levels.length - s.cut) + n := by
      simp only [MatchingEngine.extended, List.length_append, List.length_replicate]
      omega
    show up q ((MatchingEngine.extended s n).levels.length - s.cut) s.cut = _
    rw [hlen, up_add, up_eq_nil (i := s.cut + (s.levels.length - s.cut)), List.append_nil, sides]
    intro j h1 _
    refine hq j ?_
    by_contra hj
    have := h.lt_length hj
    omega

/-- **Levels added at the back** change no order. -/
theorem Settled.extended (h : Settled s c) (n : ℕ) (ho : s.haveBase = true) :
    Settled (extended s n) c ∧ (MatchingEngine.extended s n).bookOf c = s.bookOf c := by
  refine ⟨{ h with
    level := fun j => by rw [level_extended]; exact h.level j
    unopened := fun hb => absurd (ho.symm.trans hb) (by decide) }, Book.ext rfl ?_⟩
  exact h.toRepresents.sides_extended h.toLive n (q := s.queue c) (fun j hj => queue_eq_nil.mpr hj) .sell

/-- A price has a level. -/
structure Leveled (s : OrderBookV2) (p idx : ℤ) : Prop where
  /-- It is none of those before the axis. -/
  nonneg : 0 ≤ idx
  /-- It is on the axis. -/
  lt : idx < s.levels.length
  /-- It is that of the price. -/
  price : s.base + idx = p

/-- The book after its levels have moved up by `shift`, as the code computes it. -/
def rebased (s : OrderBookV2) (shift : ℤ) : OrderBookV2 :=
  { s with
    levelArrayGrowths := s.levelArrayGrowths + 1
    levels := List.replicate shift.toNat {} ++ s.levels
    base := s.base - shift
    bestBidIdx := if 0 ≤ s.bestBidIdx then s.bestBidIdx + shift else s.bestBidIdx
    bestAskIdx := if 0 ≤ s.bestAskIdx then s.bestAskIdx + shift else s.bestAskIdx
    index := s.index.forEachMut fun e => { e with levelIdx := e.levelIdx + shift } }

theorem rebased_eq {shift : ℤ} (h : 0 ≤ shift) : rebased s shift = shifted s shift.toNat := by
  rw [rebased, shifted, Int.toNat_of_nonneg h]

/-! ### How `ensure_index_for_price` ends -/

/-- How far the levels move when the axis grows at the front. -/
def frontShift (s : OrderBookV2) (p : ℤ) : ℤ := -(p - s.base) + s.initialWindow.tdiv 4 + 1

/-- How many levels there are after the axis has grown at the back. -/
def backSize (s : OrderBookV2) (p : ℤ) : ℕ := (p - s.base).toNat + (s.initialWindow.tdiv 4).toNat + 1

/-- The book `s'` is `s` with a price axis. -/
inductive Opening (p : ℤ) (s : OrderBookV2) : OrderBookV2 → Prop
  /-- There is one already. -/
  | opened (ho : s.haveBase = true) : Opening p s s
  /-- It is opened around the price. -/
  | fresh (ho : s.haveBase = false) (hw : WindowFits s.initialWindow) (hbase : InI64 (p - s.initialWindow.tdiv 2)) :
      Opening p s { s with
        base := p - s.initialWindow.tdiv 2, haveBase := true, levels := List.replicate s.initialWindow.toNat {} }

/-- How a price gets its level on an axis, or is refused. -/
inductive Placing (p : ℤ) (s : OrderBookV2) : Except Exn ℤ → OrderBookV2 → Prop
  /-- The level is there. -/
  | found (hge : 0 ≤ p - s.base) (hlt : p - s.base < s.levels.length) : Placing p s (.ok (p - s.base)) s
  /-- It would be too far below. -/
  | belowMax (hneg : p - s.base < 0) (hmax : kMaxLevels < s.levels.length + (frontShift s p).toNat) :
      Placing p s (.error rebasePastMaxLevels) s
  /-- It is made at the front. -/
  | front (hneg : p - s.base < 0) (hmax : s.levels.length + (frontShift s p).toNat ≤ kMaxLevels)
      (hbase : InI64 (s.base - frontShift s p)) :
      Placing p s (.ok (p - (s.base - frontShift s p))) (rebased s (frontShift s p))
  /-- It would be too far above. -/
  | aboveMax (hlen : (s.levels.length : ℤ) ≤ p - s.base) (hmax : kMaxLevels < backSize s p) :
      Placing p s (.error growthPastMaxLevels) s
  /-- It is made at the back. -/
  | back (hlen : (s.levels.length : ℤ) ≤ p - s.base) (hmax : backSize s p ≤ kMaxLevels) :
      Placing p s (.ok (p - s.base)) (extended s (backSize s p - s.levels.length))

/-- Without a price axis there is one afterwards, unless the window is no size of a vector. -/
theorem opening_of_openWindow {p : ℤ} {thrown : Option Exn} {s' : OrderBookV2}
    (h : s.openWindow p = .ok (thrown, s')) :
    (s.haveBase = false ∧ ¬ WindowFits s.initialWindow ∧ thrown = some .lengthError ∧
      s' = { s with base := p - s.initialWindow.tdiv 2 }) ∨ thrown = none ∧ Opening p s s' := by
  rw [openWindow] at h
  by_cases ho : s.haveBase = true
  · rw [if_pos ho] at h
    cases h
    exact Or.inr ⟨rfl, .opened ho⟩
  · have ho' : s.haveBase = false := by simpa using ho
    rw [if_neg ho] at h
    obtain ⟨base, hbase, h⟩ := bind_eq_ok.mp h
    have hi := inI64_of_i64 hbase
    rw [eq_of_i64 hbase] at h hi
    split_ifs at h with hw
    · cases h
      exact Or.inr ⟨rfl, .fresh ho' hw hi⟩
    · cases h
      exact Or.inl ⟨ho', hw, rfl, rfl⟩

theorem placing_of_growFront {p : ℤ} {idx : Except Exn ℤ} {s' : OrderBookV2} (hneg : p - s.base < 0)
    (h : s.growFront p (p - s.base) = .ok (idx, s')) : Placing p s idx s' := by
  rw [growFront] at h
  obtain ⟨negIdx, hn, h⟩ := bind_eq_ok.mp h
  obtain ⟨quarter, hq, h⟩ := bind_eq_ok.mp h
  obtain ⟨shift, hs, h⟩ := bind_eq_ok.mp h
  have hshift : shift = frontShift s p := by rw [eq_of_i64 hs, eq_of_i64 hq, eq_of_i64 hn, frontShift]
  subst hshift
  by_cases hmax : kMaxLevels < s.levels.length + (frontShift s p).toNat
  · rw [if_pos hmax] at h
    cases h
    exact .belowMax hneg hmax
  · rw [if_neg hmax] at h
    obtain ⟨base, hbase, h⟩ := bind_eq_ok.mp h
    obtain ⟨k, hk, h⟩ := bind_eq_ok.mp h
    have hi := inI64_of_i64 hbase
    have hb := eq_of_i64 hbase
    subst hb
    rw [eq_of_i64 hk] at h
    cases h
    exact .front hneg (not_lt.mp hmax) hi

theorem placing_growBack {p : ℤ} (hlen : (s.levels.length : ℤ) ≤ p - s.base) :
    Placing p s (s.growBack (p - s.base)).1 (s.growBack (p - s.base)).2 := by
  rw [growBack]
  split_ifs with hmax
  · exact .aboveMax hlen hmax
  · exact .back hlen (not_lt.mp hmax)

/-- **How `ensure_index_for_price` ends**: it fails for want of a window, or there is an axis, and the price is placed. -/
theorem placing_of_ensureIndexForPrice {p : ℤ} {idx : Except Exn ℤ} {s' : OrderBookV2}
    (h : s.ensureIndexForPrice p = .ok (idx, s')) :
    (s.haveBase = false ∧ ¬ WindowFits s.initialWindow ∧ idx = .error .lengthError ∧
      s' = { s with base := p - s.initialWindow.tdiv 2 }) ∨ ∃ s₁, Opening p s s₁ ∧ Placing p s₁ idx s' := by
  rw [ensureIndexForPrice] at h
  obtain ⟨⟨thrown, s₁⟩, hopen, h⟩ := bind_eq_ok.mp h
  rcases opening_of_openWindow hopen with ⟨ho, hw, rfl, rfl⟩ | ⟨rfl, hopening⟩
  · cases h
    exact Or.inl ⟨ho, hw, rfl, rfl⟩
  · refine Or.inr ⟨s₁, hopening, ?_⟩
    dsimp only at h
    obtain ⟨k, hk, h⟩ := bind_eq_ok.mp h
    rw [eq_of_i64 hk] at h
    split_ifs at h with hneg hlen
    · exact placing_of_growFront hneg h
    · have hplace := placing_growBack hlen
      rwa [Except.ok.inj h] at hplace
    · cases h
      exact .found (not_lt.mp hneg) (not_le.mp hlen)

/-! ### Growing keeps the representation -/

theorem Settled.growFront (h : Settled s c) (ho : s.haveBase = true) {p : ℤ} (hidx : p - s.base < 0) :
    Ends (fun u => u = .overflow ∧ ¬ Moderate s p) (s.growFront p (p - s.base)) fun r =>
      ∃ c', Regrown p s c r.2 c' ∧ (∀ idx, r.1 = .ok idx → Leveled r.2 p idx) ∧
        ∀ e, r.1 = .error e → e = rebasePastMaxLevels := by
  have hw := (h.opened ho).1
  have hmod : ¬ ¬ Moderate s p → -2 ^ 62 ≤ s.base ∧ s.base ≤ 2 ^ 32 ∧ s.initialWindow < 2 ^ 63 ∧ 0 ≤ p ∧ p < 2 ^ 32 := by
    intro hm
    obtain ⟨hbo, h1, h2⟩ := not_not.mp hm
    have := hbo.base ho
    have := hbo.window.2
    omega
  rw [OrderBookV2.growFront, Int.tdiv_eq_ediv_of_nonneg hw]
  refine Ends.bind (ends_i64 fun hm => ?_) fun a ha => ?_
  · have := hmod hm
    rw [InI64]
    omega
  refine Ends.bind (ends_i64 fun hm => ?_) fun b hb => ?_
  · have := hmod hm
    rw [InI64]
    omega
  refine Ends.bind (ends_i64 fun hm => ?_) fun shift hshift => ?_
  · have := hmod hm
    rw [InI64]
    omega
  have hpos : 0 < shift := by omega
  have hnat : ((shift.toNat : ℕ) : ℤ) = shift := Int.toNat_of_nonneg hpos.le
  by_cases hmax : kMaxLevels < s.levels.length + shift.toNat
  · rw [if_pos hmax]
    refine ⟨c, Regrown.refl h, fun idx hi => absurd hi (by simp), fun e he => ?_⟩
    simpa using he.symm
  rw [if_neg hmax]
  refine Ends.bind (ends_i64 fun hm => ?_) fun base hbase => ?_
  · have := hmod hm
    rw [InI64]
    omega
  refine Ends.bind (ends_i64 fun hm => ?_) fun idx hidx' => ?_
  · have := hmod hm
    rw [InI64]
    omega
  obtain rfl := hbase
  have hre : Regrown p s c (rebased s shift) (shiftUp shift.toNat c) := by
    obtain ⟨h1, h2⟩ := h.shifted shift.toNat ho
    rw [rebased_eq hpos.le]
    refine ⟨h1, h2, fun t => t.shifted _, ⟨rfl, rfl, rfl⟩, rfl, fun hm => ⟨hm.1.window, fun _ => ?_⟩⟩
    have := hmod (not_not.mpr hm)
    show -2 ^ 62 ≤ s.base - (shift.toNat : ℤ) ∧ s.base - (shift.toNat : ℤ) ≤ 2 ^ 32
    omega
  refine ⟨shiftUp shift.toNat c, hre, fun i hi => ?_, fun e he => absurd he (by simp)⟩
  obtain rfl : idx = i := by simpa using hi
  refine ⟨by omega, ?_, ?_⟩
  · show idx < ((List.replicate shift.toNat ({} : PriceLevel) ++ s.levels).length : ℤ)
    simp only [List.length_append, List.length_replicate]
    omega
  · show s.base - shift + idx = p
    omega

theorem Settled.growBack (h : Settled s c) (ho : s.haveBase = true) {p : ℤ} (hidx : (s.levels.length : ℤ) ≤ p - s.base) :
    Regrown p s c (s.growBack (p - s.base)).2 c ∧
      (∀ idx, (s.growBack (p - s.base)).1 = .ok idx → Leveled (s.growBack (p - s.base)).2 p idx) ∧
      ∀ e, (s.growBack (p - s.base)).1 = .error e → e = growthPastMaxLevels := by
  rw [OrderBookV2.growBack]
  split_ifs with hmax
  · refine ⟨Regrown.refl h, fun idx hi => absurd hi (by simp), fun e he => ?_⟩
    simpa using he.symm
  · obtain ⟨h1, h2⟩ := h.extended ((p - s.base).toNat + (s.initialWindow.tdiv 4).toNat + 1 - s.levels.length) ho
    refine ⟨⟨h1, h2, fun t => ⟨t.find, t.size⟩, ⟨rfl, rfl, rfl⟩, rfl, fun hm => ⟨hm.1.window, hm.1.base⟩⟩,
      fun i hi => ?_, fun e he => absurd he (by simp)⟩
    obtain rfl : p - s.base = i := by simpa using hi
    refine ⟨by omega, ?_, ?_⟩
    · show p - s.base < ((s.levels ++ List.replicate _ ({} : PriceLevel)).length : ℤ)
      simp only [List.length_append, List.length_replicate]
      omega
    · show s.base + (p - s.base) = p
      omega

/-- **`ensure_index_for_price` finds or makes the level of a price.** -/
theorem Settled.ensureIndexForPrice (h : Settled s c) (p : ℤ) :
    Ends (fun u => u = .overflow ∧ ¬ Moderate s p) (s.ensureIndexForPrice p) fun r =>
      ∃ c', Regrown p s c r.2 c' ∧ (∀ idx, r.1 = .ok idx → Leveled r.2 p idx) ∧
        ∀ e, r.1 = .error e → e ≠ arenaExhausted := by
  rw [OrderBookV2.ensureIndexForPrice]
  refine Ends.bind (h.openWindow p) ?_
  rintro ⟨thrown, s₁⟩ ⟨hre, hopen, hthrown⟩
  cases thrown with
  | some e =>
    refine ⟨c, hre, fun idx hi => absurd hi (by simp), fun e' he => ?_⟩
    obtain rfl : e = e' := by simpa using he
    rw [hthrown e rfl, arenaExhausted]
    simp
  | none =>
    have ho := hopen rfl
    have hs := hre.settled
    have hov : ∀ {u : Ub}, (u = .overflow ∧ ¬ Moderate s₁ p) → u = .overflow ∧ ¬ Moderate s p :=
      fun hu => ⟨hu.1, fun hm => hu.2 ⟨hre.base hm, hm.2⟩⟩
    refine Ends.bind (ends_i64 fun hm => ?_) fun idx hidx => ?_
    · have hbo : -2 ^ 62 ≤ s₁.base ∧ s₁.base ≤ 2 ^ 32 := (hre.base (not_not.mp hm)).base ho
      have := (not_not.mp hm).2
      rw [InI64]
      omega
    rw [hidx]
    split_ifs with hneg hlen
    · refine ((hs.growFront ho hneg).weaken fun u hu => hov hu).mono ?_
      rintro r ⟨c', hre', hok, herr⟩
      exact ⟨c', hre.trans hre', hok, fun e he => by rw [herr e he]; decide⟩
    · obtain ⟨hre', hok, herr⟩ := hs.growBack ho hlen
      exact ⟨c, hre.trans hre', hok, fun e he => by rw [herr e he]; decide⟩
    · refine ⟨c, hre, fun i hi => ?_, fun e he => absurd he (by simp)⟩
      obtain rfl : p - s₁.base = i := by simpa using hi
      exact ⟨not_lt.mp hneg, not_le.mp hlen, show s₁.base + (p - s₁.base) = p by omega⟩

end MatchingEngine
