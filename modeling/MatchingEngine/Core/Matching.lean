import MatchingEngine.Core.ReferenceLaws
import MatchingEngine.Core.Surgery

/-!
# Matching

The two loops of `match`. The inner one fills from the head of one level (`matchLevel`), the
outer one goes from level to level and moves the cursor over the empty ones (`matchLoop`).
Together they are `Book.take`: a greedy fill from the front of the other side.

The cursor search looks for any level in use. That it finds one of the right side is the
invariant `Cursors`: from an ask upwards there are only asks, and from a bid downwards only
bids. Both loops end, and nothing in them overflows or leaves an array.
-/

namespace MatchingEngine

open Foundation Function OrderBookV2

variable {s : OrderBookV2} {c : Layout} {i x : ℕ}

/-! ### Moving a cursor -/

/-- **The upward search** finds the next level in use, if there is one. -/
theorem Represents.scanUp (h : Represents s c) {left : ℕ} (hi : i + left = s.levels.length) :
    ∃ r, s.scanUp left i = .ok r ∧
      ((r = -1 ∧ ∀ j, i ≤ j → c j = []) ∨
        ∃ k : ℕ, r = k ∧ i ≤ k ∧ c k ≠ [] ∧ ∀ j, i ≤ j → j < k → c j = []) := by
  induction left generalizing i with
  | zero =>
    refine ⟨-1, rfl, Or.inl ⟨rfl, fun j hj => ?_⟩⟩
    by_contra hne
    have := h.lt_length hne
    omega
  | succ left ih =>
    rw [OrderBookV2.scanUp, levelAt_ok (by omega), ok_bind]
    by_cases hk : (s.level i).head = kNil
    · have hci := (h.head_eq_nil i).mp hk
      have hskip : ∀ j, i ≤ j → j ≠ i → i + 1 ≤ j := fun j h1 h2 => by omega
      rw [if_pos hk]
      obtain ⟨r, hr, hcase⟩ := ih (show i + 1 + left = s.levels.length by omega)
      refine ⟨r, hr, ?_⟩
      rcases hcase with ⟨hr, hall⟩ | ⟨k, hr, hle, hne, hall⟩
      · refine Or.inl ⟨hr, fun j hj => ?_⟩
        rcases eq_or_ne j i with rfl | hji
        · exact hci
        · exact hall j (hskip j hj hji)
      · refine Or.inr ⟨k, hr, by omega, hne, fun j hj hjk => ?_⟩
        rcases eq_or_ne j i with rfl | hji
        · exact hci
        · exact hall j (hskip j hj hji) hjk
    · rw [if_neg hk]
      exact ⟨i, rfl, Or.inr ⟨i, rfl, le_rfl, (h.head_eq_nil i).not.mp hk, fun j h1 h2 => by omega⟩⟩

/-- **The downward search.** -/
theorem Represents.scanDown (h : Represents s c) (hi : i ≤ s.levels.length) :
    ∃ r, s.scanDown i = .ok r ∧
      ((r = -1 ∧ ∀ j < i, c j = []) ∨
        ∃ k : ℕ, r = k ∧ k < i ∧ c k ≠ [] ∧ ∀ j, k < j → j < i → c j = []) := by
  induction i with
  | zero => exact ⟨-1, rfl, Or.inl ⟨rfl, fun j hj => by omega⟩⟩
  | succ i ih =>
    rw [OrderBookV2.scanDown, levelAt_ok (by omega), ok_bind]
    by_cases hk : (s.level i).head = kNil
    · have hci := (h.head_eq_nil i).mp hk
      rw [if_pos hk]
      obtain ⟨r, hr, hcase⟩ := ih (by omega)
      refine ⟨r, hr, ?_⟩
      rcases hcase with ⟨hr, hall⟩ | ⟨k, hr, hlt, hne, hall⟩
      · refine Or.inl ⟨hr, fun j hj => ?_⟩
        rcases eq_or_ne j i with rfl | hji
        · exact hci
        · exact hall j (by omega)
      · refine Or.inr ⟨k, hr, by omega, hne, fun j hkj hj => ?_⟩
        rcases eq_or_ne j i with rfl | hji
        · exact hci
        · exact hall j hkj (by omega)
    · rw [if_neg hk]
      exact ⟨i, rfl, Or.inr ⟨i, rfl, by omega, (h.head_eq_nil i).not.mp hk, fun j h1 h2 => by omega⟩⟩

/-- **The ask cursor leaves an empty level**, and every order stays where it was. -/
theorem Represents.advanceAsk (h : Represents s c) (hb : 0 ≤ s.bestBidIdx → c s.bestBidIdx.toNat ≠ []) {k : ℕ}
    (hk : s.bestAskIdx = k) (hlt : k < s.levels.length) (he : c k = []) :
    ∃ r : ℤ, s.advanceAsk = .ok { s with bestAskIdx := r } ∧ Settled { s with bestAskIdx := r } c ∧
      (r < 0 ∨ (k : ℤ) < r) := by
  have hcur := h.cursors
  have hun := hcur.uncrossed (by omega)
  have hfrom : (s.bestAskIdx + 1).toNat = k + 1 := by omega
  obtain ⟨r, hr, hcase⟩ := h.scanUp (show k + 1 + (s.levels.length - (k + 1)) = s.levels.length by omega)
  -- the levels in use that are not bids are above `k`
  have hsplit : ∀ j, c j ≠ [] → (j : ℤ) ≤ s.bestBidIdx ∨ k + 1 ≤ j := by
    intro j hj
    rcases hcur.split j hj with hl | ⟨-, hr⟩
    · exact Or.inl hl
    · have hjk : j ≠ k := fun e => hj (e ▸ he)
      exact Or.inr (by omega)
  refine ⟨r, ?_, ⟨{ h with cursors := ⟨hcur.bid_ge, ?_, ?_, fun j hj => ?_⟩ }, hb, fun ha => ?_⟩, ?_⟩
  · rw [OrderBookV2.advanceAsk, hfrom, hr, ok_bind]
  · show -1 ≤ r
    rcases hcase with ⟨rfl, -⟩ | ⟨m, rfl, hm, -, -⟩ <;> omega
  · intro ha
    have ha : 0 ≤ r := ha
    show s.bestBidIdx < r
    rcases hcase with ⟨rfl, -⟩ | ⟨m, rfl, hm, -, -⟩ <;> omega
  · show (j : ℤ) ≤ s.bestBidIdx ∨ (0 ≤ r ∧ r ≤ j)
    rcases hsplit j hj with hl | hkj
    · exact Or.inl hl
    · rcases hcase with ⟨-, hall⟩ | ⟨m, rfl, hm, -, hall⟩
      · exact absurd (hall j hkj) hj
      · have : ¬ j < m := fun hjm => hj (hall j hkj hjm)
        omega
  · have ha : 0 ≤ r := ha
    show c r.toNat ≠ []
    rcases hcase with ⟨rfl, -⟩ | ⟨m, rfl, -, hne, -⟩
    · omega
    · rwa [Int.toNat_natCast]
  · rcases hcase with ⟨rfl, -⟩ | ⟨m, rfl, hm, -, -⟩ <;> omega

/-- **The bid cursor leaves an empty level.** -/
theorem Represents.advanceBid (h : Represents s c) (ha : 0 ≤ s.bestAskIdx → c s.bestAskIdx.toNat ≠ []) {k : ℕ}
    (hk : s.bestBidIdx = k) (hlt : k < s.levels.length) (he : c k = []) :
    ∃ r : ℤ, s.advanceBid = .ok { s with bestBidIdx := r } ∧ Settled { s with bestBidIdx := r } c ∧
      { s with bestBidIdx := r }.bookOf c = s.bookOf c ∧ r < k := by
  have hcur := h.cursors
  obtain ⟨r, hr, hcase⟩ := h.scanDown hlt.le
  have hge : -1 ≤ r := by
    rcases hcase with ⟨rfl, -⟩ | ⟨m, rfl, hm, -, -⟩ <;> omega
  have hrk : r < k := by
    rcases hcase with ⟨rfl, -⟩ | ⟨m, rfl, hm, -, -⟩ <;> omega
  -- a level in use up to `k` is one up to `r`
  have hle : ∀ j : ℕ, c j ≠ [] → ((j : ℤ) ≤ k ↔ (j : ℤ) ≤ r) := by
    intro j hj
    refine ⟨fun hjk => ?_, fun hjr => by omega⟩
    have hjk' : j ≠ k := fun e => hj (e ▸ he)
    rcases hcase with ⟨-, hall⟩ | ⟨m, rfl, hm, -, hall⟩
    · exact absurd (hall j (by omega)) hj
    · by_contra hjm
      exact hj (hall j (by omega) (by omega))
  have hempty : ∀ j : ℕ, r < j → j ≤ k → c j = [] := by
    intro j h1 h2
    by_contra hj
    have := (hle j hj).mp (by omega)
    omega
  refine ⟨r, ?_, ⟨{ h with cursors := ⟨hge, hcur.ask_ge, fun ha => ?_, fun j hj => ?_⟩, entry := fun {id e} hf => ?_ },
    fun hb => ?_, ha⟩, ?_, hrk⟩
  · rw [OrderBookV2.advanceBid, hk, Int.toNat_natCast, hr, ok_bind]
  · have := hcur.uncrossed ha
    show r < s.bestAskIdx
    omega
  · have := hcur.split j hj
    rw [hk, hle j hj] at this
    exact this
  · have hent := h.entry hf
    have hlvl : ((e.levelIdx.toNat : ℕ) : ℤ) = e.levelIdx := Int.toNat_of_nonneg hent.nonneg
    have := hle e.levelIdx.toNat (List.ne_nil_of_mem hent.mem)
    rw [hlvl] at this
    exact ⟨hent.nonneg, hent.mem, hent.id, by rw [hent.side, hk]; exact this⟩
  · have hb : 0 ≤ r := hb
    show c r.toNat ≠ []
    rcases hcase with ⟨rfl, -⟩ | ⟨m, rfl, -, hne, -⟩
    · omega
    · rwa [Int.toNat_natCast]
  · have hcut := h.cut_eq
    have hcut' : ((r + 1).toNat : ℤ) = r + 1 := Int.toNat_of_nonneg (by omega)
    have hcl : s.cut ≤ s.levels.length := by omega
    have hq : ∀ j, (r + 1).toNat ≤ j → j < s.cut → s.queue c j = [] :=
      fun j h1 h2 => queue_eq_nil.mpr (hempty j (by omega) (by omega))
    apply Book.ext
    · exact (down_skip (show (r + 1).toNat ≤ s.cut by omega) hq).symm
    · exact (up_skip (show (r + 1).toNat ≤ s.cut by omega) hcl hq)

/-! ### One level -/

/-- **A filled maker is unlinked and freed.** -/
theorem Represents.dropHead (h : Represents s c) {xs : List ℕ} (hc : c i = x :: xs) (hq : (s.arena x).qty = 0) :
    s.dropHead i = .ok (s.unlink i x) := by
  have hxm : x ∈ c i := by simp [hc]
  have hi := h.lt_length (List.ne_nil_of_mem hxm)
  have hx := h.lt_capacity hxm
  have hl := h.level i
  rw [hc] at hl
  have hprev : (s.arena x).prev = kNil := hl.links.1
  have hnext : (s.arena x).next = xs.headD kNil := hl.links.2.1
  have hhead : (s.level i).head = x := hl.head
  by_cases hn : (s.arena x).next = kNil
  · simp [OrderBookV2.dropHead, levelAt_ok, nodeAt_ok, modifyLevel_ok, level_setLevel, hhead, hi, hx, hn]
    simp [OrderBookV2.unlink, joined, levelWithout, freeNode, setLevel, hprev, hn, hq]
  · have hnm : (s.arena x).next ∈ c i := by
      rw [hnext, hc]
      have hne : xs.headD kNil ≠ kNil := fun e => hn (hnext.trans e)
      rcases headD_mem_or kNil xs with hm | rfl
      · exact List.mem_cons_of_mem _ hm
      · exact absurd rfl hne
    have hncap := h.lt_capacity hnm
    simp [OrderBookV2.dropHead, levelAt_ok, nodeAt_ok, modifyLevel_ok, modifyNode_ok, hhead, hi, hx, hn, hncap]
    simp [OrderBookV2.unlink, joined, levelWithout, freeNode, setLevel, setNode, hprev, hn, hq]

/-- The book after the maker in cell `x` has been filled by `f`. -/
def afterFill (s : OrderBookV2) (i x : ℕ) (f : Quantity) : OrderBookV2 :=
  if (s.arena x).qty - f = 0 then (s.debit i x f).unlink i x else s.debit i x f

/-- The inner loop stops when the taker is filled. -/
theorem Represents.matchLevel_filled (hi : i < s.levels.length) {taker : OrderRequest}
    (hq : taker.qty = 0) (p : ℤ) (fuel : ℕ) (trades : List Trade) :
    matchLevel p i (fuel + 1) s taker trades = .ok (s, taker, trades) := by
  rw [OrderBookV2.matchLevel, levelAt_ok hi, ok_bind, if_neg]
  rw [hq]
  exact fun hc => absurd hc.1 (by decide)

/-- It stops when the level is empty. -/
theorem Represents.matchLevel_empty (h : Represents s c) (hi : i < s.levels.length) (hc : c i = []) (p : ℤ) (fuel : ℕ)
    (taker : OrderRequest) (trades : List Trade) :
    matchLevel p i (fuel + 1) s taker trades = .ok (s, taker, trades) := by
  rw [OrderBookV2.matchLevel, levelAt_ok hi, ok_bind, if_neg]
  exact fun hh => hh.2 ((h.head_eq_nil i).mpr hc)

/-- **One round of the inner loop**: the maker at the head is filled. -/
theorem Represents.matchLevel_step (h : Represents s c) {xs : List ℕ} (hc : c i = x :: xs) {taker : OrderRequest}
    (hq : 0 < taker.qty) (p : ℤ) (fuel : ℕ) (trades : List Trade) :
    matchLevel p i (fuel + 1) s taker trades =
      let f := min taker.qty (s.arena x).qty
      matchLevel p i fuel (afterFill s i x f) { taker with qty := taker.qty - f }
        (trades ++ [{ makerId := (s.arena x).id, takerId := taker.id, price := p, qty := f }]) := by
  have hxm : x ∈ c i := by simp [hc]
  have hi := h.lt_length (List.ne_nil_of_mem hxm)
  have hx := h.lt_capacity hxm
  have hhead : (s.level i).head = x := by rw [(h.level i).head, hc]; rfl
  have hxnil := h.ne_nil hxm
  have hle : min taker.qty (s.arena x).qty ≤ (s.arena x).qty := by
    rw [UInt64.le_iff_toNat_le, toNat_min]
    exact Nat.min_le_right _ _
  have hdrop : (s.arena x).qty - min taker.qty (s.arena x).qty = 0 →
      (s.debit i x (min taker.qty (s.arena x).qty)).dropHead i =
        .ok ((s.debit i x (min taker.qty (s.arena x).qty)).unlink i x) := by
    intro hz
    refine (h.debit hxm hle).dropHead hc ?_
    rw [debit_arena, update_self]
    exact hz
  have hdebit : (s.setNode x { s.arena x with qty := (s.arena x).qty - min taker.qty (s.arena x).qty }).setLevel i
      { s.level i with totalQty := (s.level i).totalQty - min taker.qty (s.arena x).qty } =
      s.debit i x (min taker.qty (s.arena x).qty) := rfl
  rw [OrderBookV2.matchLevel, levelAt_ok hi, ok_bind, hhead, if_pos ⟨hq, hxnil⟩, nodeAt_ok hx, ok_bind]
  dsimp only
  rw [modifyNode_ok hx, ok_bind, modifyLevel_ok (by exact hi), ok_bind, level_setNode, hdebit, afterFill]
  split_ifs with hz
  · rw [hdrop hz]
    rfl
  · rfl

/-- What filling a level leads to. -/
structure LevelFilled (s : OrderBookV2) (c : Layout) (i : ℕ) (taker : OrderRequest) (s' : OrderBookV2)
    (taker' : OrderRequest) (ts : List Trade) (zs : List ℕ) : Prop where
  /-- The representation is kept. -/
  represents : Represents s' (update c i zs)
  /-- So is what the index names. -/
  tracked : Tracked s c → Tracked s' (update c i zs)
  /-- The axis, the arena and the cursors do not move. -/
  frame : Frame s s' ∧ s'.bestBidIdx = s.bestBidIdx ∧ s'.bestAskIdx = s.bestAskIdx
  /-- The queue is what the fill leaves of it. -/
  queue : s'.queue (update c i zs) =
    update (s.queue c) i (fill taker.accepts taker.qty.toNat (s.queue c i)).rest
  /-- The trades are its fills. -/
  trades : ts = (fill taker.accepts taker.qty.toNat (s.queue c i)).fills.map (toTrade taker.id)
  /-- The taker keeps what it leaves. -/
  taker : taker' = { taker with qty := taker'.qty } ∧
    taker'.qty.toNat = (fill taker.accepts taker.qty.toNat (s.queue c i)).left

/-- Nothing happens to a level that nothing is taken from. -/
theorem LevelFilled.refl (h : Represents s c) {taker : OrderRequest}
    (hf : fill taker.accepts taker.qty.toNat (s.queue c i) = ⟨[], taker.qty.toNat, s.queue c i⟩) :
    LevelFilled s c i taker s taker [] (c i) where
  represents := by rwa [update_eq_self]
  tracked := fun t => by rwa [update_eq_self]
  frame := ⟨Frame.refl s, rfl, rfl⟩
  queue := by rw [hf, update_eq_self, update_eq_self]
  trades := by rw [hf]; rfl
  taker := ⟨rfl, by rw [hf]⟩

/-- A maker that is filled completely leaves. -/
theorem Represents.afterFill_le (h : Represents s c) {xs : List ℕ} (hc : c i = x :: xs) {taker : OrderRequest}
    (hle : (s.arena x).qty ≤ taker.qty) :
    afterFill s i x (min taker.qty (s.arena x).qty) = (s.debit i x (s.arena x).qty).unlink i x ∧
      Represents ((s.debit i x (s.arena x).qty).unlink i x) (update c i xs) ∧
      ((s.debit i x (s.arena x).qty).unlink i x).queue (update c i xs) =
        update (s.queue c) i (xs.map (s.orderAt i)) := by
  have hxm : x ∈ c i := by simp [hc]
  have hc' : c i = [] ++ x :: xs := hc
  have hmin : min taker.qty (s.arena x).qty = (s.arena x).qty := by
    rw [← UInt64.toNat_inj, toNat_min]
    exact Nat.min_eq_right (UInt64.le_iff_toNat_le.mp hle)
  have hself : (s.arena x).qty ≤ (s.arena x).qty := UInt64.le_iff_toNat_le.mpr (Nat.le_refl _)
  have hd := h.debit hxm hself
  refine ⟨?_, hd.unlink hc', ?_⟩
  · rw [hmin, afterFill, if_pos (UInt64.sub_self _)]
  · have hq := queue_unlink hd hc'
    rw [List.nil_append, List.map_nil, List.nil_append] at hq
    rw [hq, queue_debit h hc' hself, update_idem]
    -- the cells that stay keep their orders
    have hnd := h.partition.nodup i
    rw [hc] at hnd
    have hxs := (List.nodup_cons.mp hnd).1
    congr 1
    refine List.map_congr_left fun y hy => ?_
    rw [orderAt, debit_arena, update_of_ne (ne_of_mem_of_not_mem hy hxs)]
    rfl

/-- A maker that is larger than what is left of the taker stays at the head. -/
theorem Represents.afterFill_gt (h : Represents s c) {xs : List ℕ} (hc : c i = x :: xs) {taker : OrderRequest}
    (hlt : taker.qty < (s.arena x).qty) :
    afterFill s i x (min taker.qty (s.arena x).qty) = s.debit i x taker.qty ∧
      Represents (s.debit i x taker.qty) c ∧
      (s.debit i x taker.qty).queue c =
        update (s.queue c) i (less (s.orderAt i x) taker.qty.toNat :: xs.map (s.orderAt i)) := by
  have hxm : x ∈ c i := by simp [hc]
  have hlt' := UInt64.lt_iff_toNat_lt.mp hlt
  have hle : taker.qty ≤ (s.arena x).qty := UInt64.le_iff_toNat_le.mpr hlt'.le
  have hmin : min taker.qty (s.arena x).qty = taker.qty := by
    rw [← UInt64.toNat_inj, toNat_min]
    exact Nat.min_eq_left hlt'.le
  refine ⟨?_, h.debit hxm hle, ?_⟩
  · rw [hmin, afterFill, if_neg]
    rw [← toNat_eq_zero, UInt64.toNat_sub_of_le _ _ hle]
    omega
  · have hq := queue_debit h (show c i = [] ++ x :: xs from hc) hle
    rwa [List.map_nil, List.nil_append] at hq

/-- The trade with the maker in cell `x` of level `i`. -/
def tradeWith (s : OrderBookV2) (i x : ℕ) (taker : OrderRequest) (qty : Quantity) : Trade :=
  { makerId := (s.arena x).id, takerId := taker.id, price := s.base + i, qty }

/-- The last round: the maker keeps a remainder. -/
theorem LevelFilled.last (h : Represents s c) {xs : List ℕ} (hc : c i = x :: xs) {taker : OrderRequest}
    (hpos : 0 < taker.qty.toNat) (hok : taker.accepts (s.base + i)) (hlt : taker.qty.toNat < (s.arena x).qty.toNat) :
    LevelFilled s c i taker (s.debit i x taker.qty) { taker with qty := 0 } [tradeWith s i x taker taker.qty] (c i) := by
  obtain ⟨-, hr, hq⟩ := h.afterFill_gt hc (UInt64.lt_iff_toNat_lt.mpr hlt)
  have hqc : s.queue c i = s.orderAt i x :: xs.map (s.orderAt i) := queue_cons hc
  have hfill : fill taker.accepts taker.qty.toNat (s.queue c i) =
      ⟨[⟨(s.arena x).id, s.base + i, taker.qty.toNat⟩], 0,
        less (s.orderAt i x) taker.qty.toNat :: xs.map (s.orderAt i)⟩ := by
    rw [hqc]
    exact fill_cons_gt hpos hok hlt
  refine ⟨?_, fun t => ?_, ⟨frame_debit _, rfl, rfl⟩, ?_, ?_, rfl, ?_⟩
  · rwa [update_eq_self]
  · rw [update_eq_self]
    exact t.debit _
  · rw [update_eq_self, hq, hfill]
  · rw [hfill]
    simp [toTrade, tradeWith]
  · rw [hfill]
    rfl

/-- A round in which the maker is filled, and the rounds after it. -/
theorem LevelFilled.next (h : Represents s c) {xs : List ℕ} (hc : c i = x :: xs) {taker : OrderRequest}
    (hpos : 0 < taker.qty.toNat) (hok : taker.accepts (s.base + i)) (hge : (s.arena x).qty.toNat ≤ taker.qty.toNat)
    {s' : OrderBookV2} {taker' : OrderRequest} {ts : List Trade} {zs : List ℕ}
    (hl : LevelFilled ((s.debit i x (s.arena x).qty).unlink i x) (update c i xs) i
      { taker with qty := taker.qty - (s.arena x).qty } s' taker' ts zs) :
    LevelFilled s c i taker s' taker' (tradeWith s i x taker (s.arena x).qty :: ts) zs := by
  have hxm : x ∈ c i := by simp [hc]
  have hself : (s.arena x).qty ≤ (s.arena x).qty := UInt64.le_iff_toNat_le.mpr (Nat.le_refl _)
  obtain ⟨-, hr, hq⟩ := h.afterFill_le hc (UInt64.le_iff_toNat_le.mpr hge)
  have hqc : s.queue c i = s.orderAt i x :: xs.map (s.orderAt i) := queue_cons hc
  have hqi : ((s.debit i x (s.arena x).qty).unlink i x).queue (update c i xs) i = xs.map (s.orderAt i) := by
    rw [hq, update_self]
  have hsub : (taker.qty - (s.arena x).qty).toNat = taker.qty.toNat - (s.arena x).qty.toNat :=
    UInt64.toNat_sub_of_le _ _ (UInt64.le_iff_toNat_le.mpr hge)
  -- what the rounds after this one fill
  have hfill : fill taker.accepts taker.qty.toNat (s.queue c i) =
      (let r := fill taker.accepts (taker.qty - (s.arena x).qty).toNat (xs.map (s.orderAt i))
      ⟨⟨(s.arena x).id, s.base + i, (s.arena x).qty.toNat⟩ :: r.fills, r.left, r.rest⟩) := by
    rw [hqc, hsub]
    exact fill_cons_le hpos hok hge
  have h1 := hl.represents
  have h2 := hl.queue
  have h3 := hl.trades
  have h4 := hl.taker
  have hacc : ({ taker with qty := taker.qty - (s.arena x).qty } : OrderRequest).accepts = taker.accepts := rfl
  rw [update_idem] at h1
  rw [update_idem, hqi, hq, update_idem, hacc] at h2
  rw [hqi, hacc] at h3
  rw [hqi, hacc] at h4
  refine ⟨h1, fun t => ?_, ⟨((frame_debit _).trans frame_unlink).trans hl.frame.1, hl.frame.2⟩, ?_, ?_, h4.1, ?_⟩
  · have := hl.tracked ((t.debit _).unlink (h.debit hxm hself) (show c i = [] ++ x :: xs from hc))
    rwa [update_idem] at this
  · rw [hfill]
    exact h2
  · rw [hfill, h3]
    simp [toTrade, tradeWith]
  · rw [hfill]
    exact h4.2

/-- **The inner loop is a greedy fill** of the level, and it ends. -/
theorem Represents.matchLevel (h : Represents s c) (hi : i < s.levels.length) {taker : OrderRequest}
    (hok : taker.accepts (s.base + i)) {fuel : ℕ} (hf : (c i).length < fuel) (trades : List Trade) :
    ∃ s' taker' ts zs, OrderBookV2.matchLevel (s.base + i) i fuel s taker trades = .ok (s', taker', trades ++ ts) ∧
      LevelFilled s c i taker s' taker' ts zs := by
  induction fuel generalizing s c taker trades with
  | zero => omega
  | succ fuel ih =>
    cases hc : c i with
    | nil =>
      have hqn : s.queue c i = [] := queue_eq_nil.mpr hc
      refine ⟨s, taker, [], c i, ?_, LevelFilled.refl h (by rw [hqn, fill_nil])⟩
      rw [h.matchLevel_empty hi hc, List.append_nil]
    | cons x xs =>
      rw [hc, List.length_cons] at hf
      rcases Nat.eq_zero_or_pos taker.qty.toNat with hz | hpos
      · refine ⟨s, taker, [], c i, ?_, LevelFilled.refl h (by rw [hz, fill_zero])⟩
        rw [Represents.matchLevel_filled hi (toNat_eq_zero.mp hz), List.append_nil]
      rw [h.matchLevel_step hc (toNat_pos.mp hpos)]
      rcases Nat.lt_or_ge taker.qty.toNat (s.arena x).qty.toNat with hlt | hge
      · -- the maker keeps a remainder, and the taker is filled
        obtain ⟨he, -, -⟩ := h.afterFill_gt hc (UInt64.lt_iff_toNat_lt.mpr hlt)
        have hmin : min taker.qty (s.arena x).qty = taker.qty := by
          rw [← UInt64.toNat_inj, toNat_min]
          exact Nat.min_eq_left hlt.le
        obtain ⟨fuel, rfl⟩ := Nat.exists_eq_succ_of_ne_zero (show fuel ≠ 0 by omega)
        refine ⟨_, _, _, _, ?_, LevelFilled.last h hc hpos hok hlt⟩
        simp only [he]
        rw [hmin, UInt64.sub_self, Represents.matchLevel_filled (by exact List.length_set.symm ▸ hi) rfl]
        rfl
      · -- the maker is filled, and the loop goes on with the next one
        obtain ⟨he, hr, -⟩ := h.afterFill_le hc (UInt64.le_iff_toNat_le.mpr hge)
        have hmin : min taker.qty (s.arena x).qty = (s.arena x).qty := by
          rw [← UInt64.toNat_inj, toNat_min]
          exact Nat.min_eq_right hge
        have hframe : Frame s ((s.debit i x (s.arena x).qty).unlink i x) := (frame_debit _).trans frame_unlink
        have hok' : ({ taker with qty := taker.qty - (s.arena x).qty } : OrderRequest).accepts
            (((s.debit i x (s.arena x).qty).unlink i x).base + i) := hok
        obtain ⟨s', taker', ts, zs, hrun, hl⟩ := ih hr (hframe.length.symm ▸ hi) hok'
          (by rw [update_self]; omega) (trades ++ [tradeWith s i x taker (s.arena x).qty])
        refine ⟨s', taker', _, zs, ?_, hl.next h hc hpos hok hge⟩
        simp only [he]
        rw [hmin]
        rw [hframe.base, List.append_assoc] at hrun
        exact hrun

/-! ### From level to level -/

namespace OrderBookV2

/-- The cursor of a side. -/
def bestIdx (s : OrderBookV2) : Side → ℤ
  | .buy => s.bestBidIdx
  | .sell => s.bestAskIdx

/-- The cursor of a side moves to the next level in use. -/
def advance (s : OrderBookV2) : Side → Except Ub OrderBookV2
  | .buy => s.advanceBid
  | .sell => s.advanceAsk

/-- The orders of a side behind those of level `k`. -/
def behind (s : OrderBookV2) (c : Layout) : Side → ℕ → List (Order ℤ OrderId)
  | .buy, k => down (s.queue c) k
  | .sell, k => up (s.queue c) (s.levels.length - (k + 1)) (k + 1)

/-- What the levels of a side behind level `k` hold. -/
def beyond {α : Type*} (s : OrderBookV2) (q : ℕ → List α) : Side → ℕ → List α
  | .buy, k => down q k
  | .sell, k => up q (s.levels.length - (k + 1)) (k + 1)

/-- How many levels the cursor of a side may still visit. -/
def reach (s : OrderBookV2) : Side → ℕ
  | .buy => (s.bestBidIdx + 1).toNat
  | .sell => if s.bestAskIdx < 0 then 0 else s.levels.length - s.bestAskIdx.toNat

end OrderBookV2

/-- The level that a cursor names is in use. -/
theorem Live.bestIdx (h : Live s c) {side : Side} {k : ℕ} (hk : s.bestIdx side = k) : c k ≠ [] := by
  cases side with
  | buy =>
    have hk : s.bestBidIdx = k := hk
    have := h.bid (by omega)
    rwa [hk, Int.toNat_natCast] at this
  | sell =>
    have hk : s.bestAskIdx = k := hk
    have := h.ask (by omega)
    rwa [hk, Int.toNat_natCast] at this

/-- **The best level comes first.** -/
theorem Settled.side_split (h : Settled s c) {side : Side} {k : ℕ} (hk : s.bestIdx side = k) :
    (s.bookOf c).side side = s.queue c k ++ s.behind c side k := by
  cases side with
  | buy => exact h.bids_split hk
  | sell => exact h.asks_split hk

theorem Represents.side_eq_nil (h : Represents s c) {side : Side} (hk : s.bestIdx side < 0) :
    (s.bookOf c).side side = [] := by
  cases side with
  | buy => exact h.bids_eq_nil hk
  | sell => exact h.asks_eq_nil hk

/-- **A change at the best level** of a side changes the front of that side only. -/
theorem Represents.sides_update {α : Type*} (h : Represents s c) {side : Side} {k : ℕ} (hk : s.bestIdx side = k)
    (hlt : k < s.levels.length) {s' : OrderBookV2} (hf : Frame s s') (hbid : s'.bestBidIdx = s.bestBidIdx)
    {q q' : ℕ → List α} (hq : ∀ j, c j = [] → q j = []) (hother : ∀ j, j ≠ k → q' j = q j) :
    s'.sides q' side = q' k ++ s.beyond q side k ∧ s'.sides q' side.opposite = s.sides q side.opposite := by
  have hcut := h.cut_eq
  have hcut' : s'.cut = s.cut := by rw [cut, hbid, cut]
  cases side with
  | buy =>
    have hk : s.bestBidIdx = k := hk
    have hck : s.cut = k + 1 := by omega
    constructor
    · rw [sides, hcut', hck, down, down_congr fun j hj => hother j (by omega), beyond]
    · rw [Side.opposite, sides, sides, hcut', hf.length]
      exact up_congr fun j h1 _ => hother j (by omega)
  | sell =>
    have hk : s.bestAskIdx = k := hk
    have hun := h.cursors.uncrossed (by omega)
    constructor
    · rw [sides, hcut', hf.length, up_skip (show s.cut ≤ k by omega) hlt.le, up_first hlt,
        up_congr fun j h1 _ => hother j (by omega), beyond]
      intro j h1 h2
      rw [hother j (by omega)]
      refine hq j ?_
      by_contra hj
      have := (h.ask_le hj h1).2
      omega
    · rw [Side.opposite, sides, sides, hcut']
      exact down_congr fun j hj => hother j (by omega)

/-- The same, for the orders. -/
theorem Represents.bookOf_update (h : Represents s c) {side : Side} {k : ℕ} (hk : s.bestIdx side = k)
    (hlt : k < s.levels.length) {s' : OrderBookV2} {c' : Layout} {os : List (Order ℤ OrderId)} (hf : Frame s s')
    (hbid : s'.bestBidIdx = s.bestBidIdx) (hq : s'.queue c' = update (s.queue c) k os) :
    s'.bookOf c' = (s.bookOf c).withSide side (os ++ s.behind c side k) := by
  have hother : ∀ j, j ≠ k → update (s.queue c) k os j = s.queue c j := fun j hj => update_of_ne hj _ _
  obtain ⟨h1, h2⟩ := h.sides_update hk hlt hf hbid (fun j hj => queue_eq_nil.mpr hj) hother
  rw [update_self, ← hq] at h1
  rw [← hq] at h2
  cases side with
  | buy => exact Book.ext h1 h2
  | sell => exact Book.ext h2 h1

/-- The cursor of the other side does not name the best level. -/
theorem Represents.other_live (h : Represents s c) (hl : Live s c) {side : Side} {k : ℕ} (hk : s.bestIdx side = k)
    (zs : List ℕ) (hother : 0 ≤ s.bestIdx side.opposite) : update c k zs (s.bestIdx side.opposite).toNat ≠ [] := by
  cases side with
  | buy =>
    have hk : s.bestBidIdx = k := hk
    have hother : 0 ≤ s.bestAskIdx := hother
    have := h.cursors.uncrossed hother
    show update c k zs s.bestAskIdx.toNat ≠ []
    rw [update_of_ne (by omega)]
    exact hl.ask hother
  | sell =>
    have hk : s.bestAskIdx = k := hk
    have hother : 0 ≤ s.bestBidIdx := hother
    have := h.cursors.uncrossed (by omega)
    show update c k zs s.bestBidIdx.toNat ≠ []
    rw [update_of_ne (by omega)]
    exact hl.bid hother

/-- **A cursor leaves an empty level**, and every order stays where it was. -/
theorem Represents.advance (h : Represents s c) {side : Side} {k : ℕ} (hk : s.bestIdx side = k)
    (hlt : k < s.levels.length) (he : c k = [])
    (hother : 0 ≤ s.bestIdx side.opposite → c (s.bestIdx side.opposite).toNat ≠ []) :
    ∃ s', s.advance side = .ok s' ∧ Settled s' c ∧ s'.bookOf c = s.bookOf c ∧ s'.reach side < s.reach side ∧
      Frame s s' ∧ (Tracked s c → Tracked s' c) := by
  cases side with
  | buy =>
    have hk : s.bestBidIdx = k := hk
    obtain ⟨r, hr, hs, hbook, hrk⟩ := h.advanceBid hother hk hlt he
    refine ⟨_, hr, hs, hbook, ?_, ⟨rfl, rfl, rfl, rfl, rfl, rfl⟩, fun t => ⟨t.find, t.size⟩⟩
    show (r + 1).toNat < (s.bestBidIdx + 1).toNat
    omega
  | sell =>
    have hk : s.bestAskIdx = k := hk
    obtain ⟨r, hr, hs, hrk⟩ := h.advanceAsk hother hk hlt he
    refine ⟨_, hr, hs, rfl, ?_, ⟨rfl, rfl, rfl, rfl, rfl, rfl⟩, fun t => ⟨t.find, t.size⟩⟩
    show (if r < 0 then 0 else s.levels.length - r.toNat) <
      if s.bestAskIdx < 0 then 0 else s.levels.length - s.bestAskIdx.toNat
    split_ifs <;> omega

/-- A level that stays in use keeps the cursors on levels in use. -/
theorem update_live {k j : ℕ} {zs : List ℕ} (hzs : zs ≠ []) (hj : c j ≠ []) : update c k zs j ≠ [] := by
  rcases eq_or_ne j k with rfl | hjk
  · rwa [update_self]
  · rwa [update_of_ne hjk]

theorem Settled.reach_pos (h : Settled s c) {side : Side} {k : ℕ} (hk : s.bestIdx side = k) : 0 < s.reach side := by
  have hlt := h.lt_length (h.bestIdx hk)
  cases side with
  | buy =>
    have hk : s.bestBidIdx = k := hk
    show 0 < (s.bestBidIdx + 1).toNat
    omega
  | sell =>
    have hk : s.bestAskIdx = k := hk
    show 0 < if s.bestAskIdx < 0 then 0 else s.levels.length - s.bestAskIdx.toNat
    split_ifs <;> omega

/-! ### The whole of `match` -/

/-- What matching a taker leads to. -/
structure Matched (s : OrderBookV2) (c : Layout) (taker : OrderRequest) (s' : OrderBookV2) (taker' : OrderRequest)
    (ts : List Trade) (c' : Layout) : Prop where
  /-- The representation is kept. -/
  settled : Settled s' c'
  /-- So is what the index names. -/
  tracked : Tracked s c → Tracked s' c'
  /-- The axis and the arena do not change. -/
  frame : Frame s s'
  /-- The other side is what the taker leaves of it. -/
  book : s'.bookOf c' = (s.bookOf c).taken taker
  /-- The trades are the taker's fills. -/
  trades : ts = (s.bookOf c).trades taker
  /-- The taker keeps the rest. -/
  taker : taker' = { taker with qty := taker'.qty } ∧ taker'.qty.toNat = ((s.bookOf c).take taker).left

/-- A taker that takes nothing. -/
theorem Matched.refl (h : Settled s c) {taker : OrderRequest}
    (hf : (s.bookOf c).take taker = ⟨[], taker.qty.toNat, (s.bookOf c).side taker.side.opposite⟩) :
    Matched s c taker s taker [] c where
  settled := h
  tracked := id
  frame := Frame.refl s
  book := by rw [Book.taken, hf, withSide_side]
  trades := by rw [Book.trades, hf]; rfl
  taker := ⟨rfl, by rw [hf]⟩

/-- The price check of `match` is the taker's limit. -/
theorem beyondLimit_eq (taker : OrderRequest) (p : ℤ) : beyondLimit taker p = !taker.accepts p := by
  rw [beyondLimit, OrderRequest.accepts, Bool.not_or]
  congr 1
  · exact decide_not
  · cases taker.side with
    | buy => exact (decide_eq_decide.mpr not_le.symm).trans decide_not
    | sell => exact (decide_eq_decide.mpr not_le.symm).trans decide_not

/-- What was taken from the best level, and then from what is behind it. -/
theorem take_level (h : Settled s c) {taker : OrderRequest} {k : ℕ} (hk : s.bestIdx taker.side.opposite = k)
    (hok : taker.accepts (s.base + k)) :
    (s.bookOf c).take taker =
      let r := fill taker.accepts taker.qty.toNat (s.queue c k)
      let r' := fill taker.accepts r.left (r.rest ++ s.behind c taker.side.opposite k)
      ⟨r.fills ++ r'.fills, r'.left, r'.rest⟩ := by
  rw [Book.take, h.side_split hk]
  refine fill_append _ (fun o ho => ?_) _
  rw [price_of_mem_queue ho]
  exact hok

/-- **What one round of the outer loop does**: it fills from the best level, and the cursor leaves a level that runs
empty. -/
structure Round (s : OrderBookV2) (c : Layout) (taker : OrderRequest) (trades : List Trade) (k : ℕ)
    (s₁ s₂ : OrderBookV2) (taker₁ : OrderRequest) (ts : List Trade) (zs : List ℕ) : Prop where
  /-- The level is the best one, -/
  best : s.bestIdx taker.side.opposite = k
  /-- and the taker accepts its price. -/
  accepts : taker.accepts (s.base + k) = true
  /-- The inner loop runs on it. -/
  run : OrderBookV2.matchLevel (s.base + k) k (s.arenaBump + 1) s taker trades = .ok (s₁, taker₁, trades ++ ts)
  /-- It is a greedy fill. -/
  filled : LevelFilled s c k taker s₁ taker₁ ts zs
  /-- The cursor moves if nothing is left of the level. -/
  moved : zs = [] ∧ s₁.advance taker.side.opposite = .ok s₂ ∨ zs ≠ [] ∧ s₂ = s₁
  /-- The representation is kept. -/
  settled : Settled s₂ (update c k zs)
  /-- Every order stays where the level left it, -/
  book : s₂.bookOf (update c k zs) = s₁.bookOf (update c k zs)
  /-- and so does what the index names. -/
  tracked : Tracked s₁ (update c k zs) → Tracked s₂ (update c k zs)
  /-- The axis and the arena do not change. -/
  frame : Frame s₁ s₂
  /-- Fewer levels are ahead, or nothing is left of the taker. -/
  progress : s₂.reach taker.side.opposite < s.reach taker.side.opposite ∨ taker₁.qty.toNat = 0

/-- The taker is still the same order. -/
theorem Round.side {trades ts : List Trade} {taker taker₁ : OrderRequest} {k : ℕ} {s₁ s₂ : OrderBookV2} {zs : List ℕ}
    (h : Round s c taker trades k s₁ s₂ taker₁ ts zs) : taker₁.side = taker.side := by rw [h.filled.taker.1]

/-- **One round of the outer loop and the rounds after it.** -/
theorem Matched.next (h : Settled s c) {taker taker₁ taker' : OrderRequest} {k : ℕ} {s₁ s₂ s' : OrderBookV2}
    {trades ts ts' : List Trade} {zs : List ℕ} {c' : Layout} (hr : Round s c taker trades k s₁ s₂ taker₁ ts zs)
    (hm : Matched s₂ (update c k zs) taker₁ s' taker' ts' c') : Matched s c taker s' taker' (ts ++ ts') c' := by
  have hl := hr.filled
  obtain ⟨ht1, ht1q⟩ := hl.taker
  have hlt := h.lt_length (h.bestIdx hr.best)
  have hbook := h.toRepresents.bookOf_update hr.best hlt hl.frame.1 hl.frame.2.1 hl.queue
  have htake := take_level h hr.best hr.accepts
  have hside := hr.side
  have hacc : taker₁.accepts = taker.accepts := by rw [ht1]; rfl
  have hid : taker₁.id = taker.id := by rw [ht1]
  -- the rest of the fill starts from what the level leaves
  have htake' : (s₂.bookOf (update c k zs)).take taker₁ =
      fill taker.accepts (fill taker.accepts taker.qty.toNat (s.queue c k)).left
        ((fill taker.accepts taker.qty.toNat (s.queue c k)).rest ++ s.behind c taker.side.opposite k) := by
    rw [Book.take, hr.book, hbook, hside, hacc, ht1q, side_withSide]
  refine ⟨hm.settled, fun t => hm.tracked (hr.tracked (hl.tracked t)), (hl.frame.1.trans hr.frame).trans hm.frame,
    ?_, ?_, ?_, ?_⟩
  · rw [hm.book, Book.taken, Book.taken, htake', htake, hr.book, hbook, hside, withSide_withSide]
  · rw [hm.trades, hl.trades, Book.trades, Book.trades, htake', htake, hid, ← List.map_append]
  · rw [hm.taker.1, ht1]
  · rw [hm.taker.2, htake', htake]

/-- One round of the outer loop, with the side as a parameter. -/
theorem matchLoop_succ (fuel : ℕ) (s : OrderBookV2) (taker : OrderRequest) (trades : List Trade) :
    matchLoop (fuel + 1) s taker trades =
      if 0 < taker.qty then
        if s.bestIdx taker.side.opposite < 0 then .ok (s, taker, trades)
        else do
          let p ← i64 (s.base + s.bestIdx taker.side.opposite)
          if beyondLimit taker p then .ok (s, taker, trades)
          else do
            let r ← matchLevel p (s.bestIdx taker.side.opposite) (s.arenaBump + 1) s taker trades
            let lvl ← r.1.levelAt (s.bestIdx taker.side.opposite)
            let s' ← if lvl.head = kNil then r.1.advance r.2.1.side.opposite else .ok r.1
            matchLoop fuel s' r.2.1 r.2.2
      else .ok (s, taker, trades) := by
  have hround : ∀ (lvl : PriceLevel) (s' : OrderBookV2) (taker' : OrderRequest) (trades' : List Trade),
      (if lvl.head = kNil then
        match taker'.side with
        | .buy => s'.advanceAsk >>= fun s' => matchLoop fuel s' taker' trades'
        | .sell => s'.advanceBid >>= fun s' => matchLoop fuel s' taker' trades'
      else .ok s' >>= fun s' => matchLoop fuel s' taker' trades') =
        if lvl.head = kNil then s'.advance taker'.side.opposite >>= fun s' => matchLoop fuel s' taker' trades'
        else .ok s' >>= fun s' => matchLoop fuel s' taker' trades' := by
    intro lvl s' taker' trades'
    split_ifs
    · cases taker'.side <;> rfl
    · rfl
  obtain ⟨id, side, type, price, qty⟩ := taker
  cases side with
  | buy =>
    refine if_congr Iff.rfl (if_congr Iff.rfl rfl (bind_congr fun p => if_congr Iff.rfl rfl (bind_congr ?_))) rfl
    rintro ⟨s', taker', trades'⟩
    exact bind_congr fun lvl => hround lvl s' taker' trades'
  | sell =>
    refine if_congr Iff.rfl (if_congr Iff.rfl rfl (bind_congr fun p => if_congr Iff.rfl rfl (bind_congr ?_))) rfl
    rintro ⟨s', taker', trades'⟩
    exact bind_congr fun lvl => hround lvl s' taker' trades'

/-- A taker of no shares takes nothing, and neither does one that finds no level or does not accept its price. -/
theorem Settled.take_stop (h : Settled s c) {taker : OrderRequest}
    (hstop : taker.qty.toNat = 0 ∨ s.bestIdx taker.side.opposite < 0 ∨
      ∃ k : ℕ, s.bestIdx taker.side.opposite = k ∧ taker.accepts (s.base + k) = false) :
    (s.bookOf c).take taker = ⟨[], taker.qty.toNat, (s.bookOf c).side taker.side.opposite⟩ := by
  rw [Book.take]
  rcases hstop with hz | hneg | ⟨k, hk, hfalse⟩
  · rw [hz, fill_zero]
  · rw [h.toRepresents.side_eq_nil hneg, fill_nil]
  · refine fill_stop fun o ho => ?_
    have hhead : (s.queue c k ++ s.behind c taker.side.opposite k).head?.map (·.price) = some (s.base + k) :=
      head?_queue_append (h.bestIdx hk)
    rw [h.side_split hk] at ho
    rw [ho] at hhead
    have hp : o.price = s.base + k := by simpa using hhead
    rw [hp]
    exact hfalse

/-- The cursors stay on levels in use if something is left of the level. -/
theorem LevelFilled.settled (h : Settled s c) {taker taker₁ : OrderRequest} {k : ℕ} {s₁ : OrderBookV2} {ts : List Trade}
    {zs : List ℕ} (hl : LevelFilled s c k taker s₁ taker₁ ts zs) (hzs : zs ≠ []) : Settled s₁ (update c k zs) := by
  refine ⟨hl.represents, fun hb => ?_, fun ha => ?_⟩
  · rw [hl.frame.2.1] at hb ⊢
    exact update_live hzs (h.bid hb)
  · rw [hl.frame.2.2] at ha ⊢
    exact update_live hzs (h.ask ha)

/-- If something is left of the level, nothing is left of the taker. -/
theorem LevelFilled.taker_filled {taker taker₁ : OrderRequest} {k : ℕ} {s₁ : OrderBookV2} {ts : List Trade}
    {zs : List ℕ} (hl : LevelFilled s c k taker s₁ taker₁ ts zs) (hok : taker.accepts (s.base + k) = true)
    (hzs : zs ≠ []) : taker₁.qty.toNat = 0 := by
  have hrest : (fill taker.accepts taker.qty.toNat (s.queue c k)).rest ≠ [] := by
    have hq := congrFun hl.queue k
    rw [update_self] at hq
    rw [← hq, ne_eq, queue_eq_nil, update_self]
    exact hzs
  have hleft : (fill taker.accepts taker.qty.toNat (s.queue c k)).left = 0 :=
    (fill_left_or_rest (fun o ho => by rw [price_of_mem_queue ho]; exact hok) _).resolve_right hrest
  rw [hl.taker.2, hleft]

/-- **One round.** The loop ends and takes nothing, or it fills from the best level and goes on. -/
theorem Settled.round (h : Settled s c) (fuel : ℕ) (taker : OrderRequest) (trades : List Trade) :
    (OrderBookV2.matchLoop (fuel + 1) s taker trades = .ok (s, taker, trades) ∧
      (s.bookOf c).take taker = ⟨[], taker.qty.toNat, (s.bookOf c).side taker.side.opposite⟩) ∨
    ∃ k s₁ s₂ taker₁ ts zs, Round s c taker trades k s₁ s₂ taker₁ ts zs ∧
      OrderBookV2.matchLoop (fuel + 1) s taker trades = OrderBookV2.matchLoop fuel s₂ taker₁ (trades ++ ts) := by
  rw [matchLoop_succ]
  rcases Nat.eq_zero_or_pos taker.qty.toNat with hz | hpos
  · rw [if_neg (fun hq => absurd (toNat_pos.mpr hq) (by omega))]
    exact Or.inl ⟨rfl, h.take_stop (Or.inl hz)⟩
  rw [if_pos (toNat_pos.mp hpos)]
  by_cases hneg : s.bestIdx taker.side.opposite < 0
  · rw [if_pos hneg]
    exact Or.inl ⟨rfl, h.take_stop (Or.inr (Or.inl hneg))⟩
  rw [if_neg hneg]
  obtain ⟨k, hk⟩ := Int.eq_ofNat_of_zero_le (not_lt.mp hneg)
  have hlt := h.lt_length (h.bestIdx hk)
  rw [hk, h.i64_price (h.bestIdx hk), ok_bind, beyondLimit_eq]
  cases hok : taker.accepts (s.base + k) with
  | false =>
    rw [if_pos (by decide)]
    exact Or.inl ⟨rfl, h.take_stop (Or.inr (Or.inr ⟨k, hk, hok⟩))⟩
  | true =>
    rw [if_neg (by decide)]
    refine Or.inr ?_
    obtain ⟨s₁, taker₁, ts, zs, hrun, hl⟩ := h.toRepresents.matchLevel hlt hok
      (Nat.lt_succ_of_le (h.queue_length_le k)) trades
    have hlt₁ : k < s₁.levels.length := by rw [hl.frame.1.length]; exact hlt
    have hside : taker₁.side = taker.side := by rw [hl.taker.1]
    have hcur : ∀ side, s₁.bestIdx side = s.bestIdx side := by
      intro side
      cases side with
      | buy => exact hl.frame.2.1
      | sell => exact hl.frame.2.2
    rw [hrun, ok_bind, levelAt_ok hlt₁, ok_bind, hside]
    dsimp only
    by_cases hzs : zs = []
    · -- the level is empty now, and the cursor moves on
      have hcz : update c k zs k = [] := by rw [update_self, hzs]
      have hk₁ : s₁.bestIdx taker.side.opposite = k := by rw [hcur, hk]
      have hother : 0 ≤ s₁.bestIdx taker.side.opposite.opposite →
          update c k zs (s₁.bestIdx taker.side.opposite.opposite).toNat ≠ [] := by
        rw [hcur]
        exact h.toRepresents.other_live h.toLive hk zs
      have hreach : s₁.reach taker.side.opposite = s.reach taker.side.opposite := by
        rw [reach.eq_def, reach.eq_def, hl.frame.2.1, hl.frame.2.2, hl.frame.1.length]
      obtain ⟨s₂, hs₂, hset, hbook, hless, hframe, htr⟩ := hl.represents.advance hk₁ hlt₁ hcz hother
      rw [if_pos ((hl.represents.head_eq_nil k).mpr hcz), hs₂, ok_bind]
      exact ⟨k, s₁, s₂, taker₁, ts, zs,
        ⟨hk, hok, hrun, hl, Or.inl ⟨hzs, hs₂⟩, hset, hbook, htr, hframe, Or.inl (hreach ▸ hless)⟩, rfl⟩
    · -- the level is not empty, so the taker is filled
      have hcz : update c k zs k ≠ [] := by rwa [update_self]
      rw [if_neg ((hl.represents.head_eq_nil k).not.mpr hcz), ok_bind]
      exact ⟨k, s₁, s₁, taker₁, ts, zs,
        ⟨hk, hok, hrun, hl, Or.inr ⟨hzs, rfl⟩, hl.settled h hzs, rfl, id, Frame.refl s₁,
          Or.inr (hl.taker_filled hok hzs)⟩, rfl⟩

/-- **`match` is a greedy fill** of the other side, and it ends. -/
theorem Settled.matchLoop (h : Settled s c) {taker : OrderRequest} {fuel : ℕ}
    (hf : s.reach taker.side.opposite < fuel) (trades : List Trade) :
    ∃ s' taker' ts c', OrderBookV2.matchLoop fuel s taker trades = .ok (s', taker', trades ++ ts) ∧
      Matched s c taker s' taker' ts c' := by
  induction fuel generalizing s c taker trades with
  | zero => omega
  | succ fuel ih =>
    obtain ⟨hrun, hstop⟩ | ⟨k, s₁, s₂, taker₁, ts, zs, hr, hrun⟩ := h.round fuel taker trades
    · exact ⟨s, taker, [], c, by rw [hrun, List.append_nil], Matched.refl h hstop⟩
    rw [hrun]
    rcases hr.progress with hless | hz
    · have hless₂ : s₂.reach taker₁.side.opposite < fuel := by
        rw [hr.side]
        omega
      obtain ⟨s', taker', ts', c', hrest, hm⟩ := ih hr.settled hless₂ (trades ++ ts)
      exact ⟨s', taker', ts ++ ts', c', by rw [hrest, List.append_assoc], Matched.next h hr hm⟩
    · -- the next round ends the loop
      have hfuel : 0 < fuel := by
        have := h.reach_pos hr.best
        omega
      obtain ⟨fuel, rfl⟩ := Nat.exists_eq_succ_of_ne_zero hfuel.ne'
      have hm := Matched.refl hr.settled (hr.settled.take_stop (Or.inl hz))
      rw [Nat.succ_eq_add_one, matchLoop_succ, if_neg fun hq => absurd (toNat_pos.mpr hq) (by omega)]
      exact ⟨s₂, taker₁, ts ++ [], _, by rw [List.append_nil], Matched.next h hr hm⟩

/-- `match` has steps enough for every level. -/
theorem Settled.match_ (h : Settled s c) (taker : OrderRequest) (trades : List Trade) :
    ∃ s' taker' ts c', s.match_ taker trades = .ok (s', taker', trades ++ ts) ∧ Matched s c taker s' taker' ts c' := by
  refine h.matchLoop ?_ trades
  have hcut := h.cut_eq
  have hcl := cut_le_length h.toRepresents h.toLive
  cases taker.side with
  | buy =>
    show (if s.bestAskIdx < 0 then 0 else s.levels.length - s.bestAskIdx.toNat) < _
    split_ifs <;> omega
  | sell =>
    show (s.bestBidIdx + 1).toNat < _
    omega

end MatchingEngine
