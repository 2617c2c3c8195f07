import MatchingEngine.Core.PriceAxis
import MatchingEngine.Foundation.LevelBook

/-!
# Coming to rest

The part of `add` that lets an order rest: claim a cell (`alloc_node`), link it at the end of
the level of its price (`push_back_order`), and move the cursor if the price is the best one.

Resting an order is `Book.join`. When an exception is thrown instead, the orders are what
they were; and the arena is exhausted only when every cell of it holds an order.
-/

namespace MatchingEngine

open Foundation Function OrderBookV2

variable {s : OrderBookV2} {c : Layout} {i x : ℕ} {fl : List ℕ} {bump : ℕ}

/-! ### Claiming a cell -/

/-- What `alloc_node` does when it hands out the cell `x`, and leaves the free list `fl` and the
bump pointer `bump`. -/
structure Claimed (s : OrderBookV2) (c : Layout) (x : ℕ) (fl : List ℕ) (bump : ℕ) : Prop where
  /-- The cell is in no queue. -/
  not_mem : ∀ j, x ∉ c j
  /-- It is not free any more. -/
  not_free : x ∉ fl
  /-- The free list holds no cell twice. -/
  free_nodup : fl.Nodup
  /-- The other free cells stay free. -/
  free_iff : ∀ y, y ≠ x → (y ∈ fl ↔ y ∈ s.freeList)
  /-- It is the only cell that may be handed out for the first time. -/
  lt_iff : ∀ y, y < bump ↔ y = x ∨ y < s.arenaBump
  /-- The bump pointer stays within the arena. -/
  bump_le : bump ≤ s.arenaCapacity
  /-- One cell more is in use. -/
  count : fl.length + s.arenaBump + 1 = s.freeList.length + bump

/-- **`alloc_node` hands out a cell, or every cell of the arena is in a queue.** -/
theorem Represents.allocNode (h : Represents s c) :
    (∃ x fl bump, s.allocNode = (.ok x, { s with freeList := fl, arenaBump := bump }) ∧ Claimed s c x fl bump) ∨
      (s.allocNode = (.error arenaExhausted, s) ∧ s.freeList = [] ∧ s.arenaBump = s.arenaCapacity) := by
  have hp := h.partition
  rw [OrderBookV2.allocNode]
  cases hf : s.freeList with
  | cons x rest =>
    have hnd := hp.free_nodup
    rw [hf] at hnd
    obtain ⟨hx, hnd⟩ := List.nodup_cons.mp hnd
    have hxf : x ∈ s.freeList := by simp [hf]
    have hlt : x < s.arenaBump := (hp.lt_iff x).mpr (Or.inl hxf)
    refine Or.inl ⟨x, rest, s.arenaBump, rfl, fun j => hp.free_apart hxf, hx, hnd, fun y hy => ?_, fun y => ?_, h.bump_le, ?_⟩
    · simp [hf, hy]
    · constructor
      · exact fun hlt => Or.inr hlt
      · rintro (rfl | hlt')
        · exact hlt
        · exact hlt'
    · simp only [hf, List.length_cons]
      omega
  | nil =>
    split_ifs with hb
    · exact Or.inr ⟨rfl, rfl, Nat.le_antisymm h.bump_le hb⟩
    · refine Or.inl ⟨s.arenaBump, s.freeList, s.arenaBump + 1, by simp [hf], fun j hj => ?_, ?_, hp.free_nodup,
        fun y _ => Iff.rfl, fun y => ?_, ?_, ?_⟩
      · exact absurd (h.lt_bump hj) (lt_irrefl _)
      · simp [hf]
      · show y < s.arenaBump + 1 ↔ _
        omega
      · show s.arenaBump + 1 ≤ _
        omega
      · omega
  
/-- The claimed cell is in the arena. -/
theorem Claimed.lt_capacity (k : Claimed s c x fl bump) : x < s.arenaCapacity :=
  ((k.lt_iff x).mpr (Or.inl rfl)).trans_le k.bump_le

theorem Partition.claim (h : Represents s c) (k : Claimed s c x fl bump) (i : ℕ) :
    Partition fl bump (update c i (c i ++ [x])) := by
  have hp := h.partition
  have hmem : ∀ {j y}, y ∈ update c i (c i ++ [x]) j → y ∈ c j ∨ (j = i ∧ y = x) := by
    intro j y hy
    rcases eq_or_ne j i with rfl | hj
    · rw [update_self, List.mem_append, List.mem_singleton] at hy
      exact hy.imp_right fun e => ⟨rfl, e⟩
    · rw [update_of_ne hj] at hy
      exact Or.inl hy
  refine ⟨k.free_nodup, fun j => ?_, fun {j j' y} h1 h2 => ?_, fun {j y} hy hm => ?_, fun y => ?_⟩
  · rcases eq_or_ne j i with rfl | hj
    · rw [update_self]
      refine List.nodup_append.mpr ⟨hp.nodup j, List.nodup_singleton x, fun a ha b hb e => ?_⟩
      rw [List.mem_singleton] at hb
      exact k.not_mem j (hb ▸ e ▸ ha)
    · rw [update_of_ne hj]
      exact hp.nodup j
  · rcases hmem h1 with h1 | ⟨e1, hy⟩
    · rcases hmem h2 with h2 | ⟨-, hy⟩
      · exact hp.apart h1 h2
      · exact absurd (hy ▸ h1) (k.not_mem j)
    · rcases hmem h2 with h2 | ⟨e2, -⟩
      · exact absurd (hy ▸ h2) (k.not_mem j')
      · exact e1.trans e2.symm
  · rcases hmem hm with hm | ⟨-, rfl⟩
    · have hne : y ≠ x := fun e => k.not_mem j (e ▸ hm)
      exact hp.free_apart ((k.free_iff y hne).mp hy) hm
    · exact k.not_free hy
  · rw [k.lt_iff, hp.lt_iff]
    rcases eq_or_ne y x with rfl | hne
    · have : y ∈ update c i (c i ++ [y]) i := by simp
      simpa using Or.inr ⟨i, this⟩
    · rw [k.free_iff y hne]
      constructor
      · rintro (e | hf | ⟨j, hj⟩)
        · exact absurd e hne
        · exact Or.inl hf
        · refine Or.inr ⟨j, ?_⟩
          rcases eq_or_ne j i with rfl | hji
          · rw [update_self]
            exact List.mem_append_left _ hj
          · rwa [update_of_ne hji]
      · rintro (hf | ⟨j, hj⟩)
        · exact Or.inr (Or.inl hf)
        · rcases hmem hj with hj | ⟨-, e⟩
          · exact Or.inr (Or.inr ⟨j, hj⟩)
          · exact absurd e hne

/-! ### Linking it -/

namespace OrderBookV2

/-- The cell `x`, with the order of `req`, linked at the end of level `i`. -/
def link (s : OrderBookV2) (i x : ℕ) (side : Side) (req : OrderRequest) : OrderBookV2 :=
  let tail := (s.level i).tail
  let arena := update s.arena x { id := req.id, qty := req.qty, prev := tail, next := kNil }
  { s with
    arena := if tail = kNil then arena else update arena tail { arena tail with next := x }
    levels := s.levels.set i
      { head := if tail = kNil then x else (s.level i).head
        tail := x
        totalQty := (s.level i).totalQty + req.qty }
    index := s.index.set req.id ⟨side, i, x⟩ }

/-- **`push_back_order` links the cell.** -/
theorem linkBack_eq {side : Side} {req : OrderRequest} (hi : i < s.levels.length) (hx : x < s.arenaCapacity)
    (ht : (s.level i).tail = kNil ∨ (s.level i).tail < s.arenaCapacity ∧ (s.level i).tail ≠ x) :
    s.linkBack x i side req = .ok (s.link i x side req) := by
  by_cases hk : (s.level i).tail = kNil
  · simp [linkBack, modifyNode_ok, modifyLevel_ok, levelAt_ok, level_setLevel, hx, hi, hk]
    simp [link, hk, setNode, setLevel]
  · obtain ⟨ht, hne⟩ := ht.resolve_left hk
    simp [linkBack, modifyNode_ok, modifyLevel_ok, levelAt_ok, level_setLevel, hx, hi, hk, ht]
    simp [link, hk, setNode, setLevel, hne, hne.symm, update_comm hne]

/-- What linking does to a cell that is one. -/
theorem link_arena {side : Side} {req : OrderRequest} {y : ℕ} (hy : y ≠ kNil) :
    (s.link i x side req).arena y =
      if y = (s.level i).tail then
        { (update s.arena x { id := req.id, qty := req.qty, prev := (s.level i).tail, next := kNil } y) with next := x }
      else update s.arena x { id := req.id, qty := req.qty, prev := (s.level i).tail, next := kNil } y := by
  simp only [link]
  split_ifs with h1 h2 h2
  · exact absurd (h2.trans h1) hy
  · rfl
  · rw [h2, update_self]
  · rw [update_of_ne h2]

theorem level_link {side : Side} {req : OrderRequest} (hi : i < s.levels.length) :
    (s.link i x side req).level = update s.level i
      { head := if (s.level i).tail = kNil then x else (s.level i).head
        tail := x
        totalQty := (s.level i).totalQty + req.qty } := by
  rw [← level_setLevel hi]
  exact level_congr rfl

/-- An order of `side` at level `i` stays strictly on its own side of the book. -/
def FitsAt (s : OrderBookV2) (side : Side) (i : ℤ) : Prop :=
  match side with
  | .buy => 0 ≤ s.bestAskIdx → i < s.bestAskIdx
  | .sell => s.bestBidIdx < i

/-- The bid cursor after a buy order has come to rest at level `i`. -/
theorem noteBest_buy (hb : -1 ≤ s.bestBidIdx) (i : ℕ) :
    s.noteBest .buy i = { s with bestBidIdx := max s.bestBidIdx i } := by
  rw [noteBest]
  split_ifs with h
  · rw [max_eq_right (by omega)]
  · rw [max_eq_left (by omega)]

/-- The ask cursor after a sell order has come to rest at level `i`. -/
theorem noteBest_sell (i : ℕ) :
    s.noteBest .sell i = { s with bestAskIdx := if s.bestAskIdx < 0 then (i : ℤ) else min s.bestAskIdx i } := by
  rw [noteBest]
  by_cases h1 : s.bestAskIdx < 0
  · rw [if_pos (Or.inl h1), if_pos h1]
  · by_cases h2 : (i : ℤ) < s.bestAskIdx
    · rw [if_pos (Or.inr h2), if_neg h1, min_eq_right h2.le]
    · rw [if_neg (not_or.mpr ⟨h1, h2⟩), if_neg h1, min_eq_left (by omega)]

end OrderBookV2

section Link

variable {side : Side} {req : OrderRequest}

/-- A claimed cell linked at the end of level `i`. -/
def linked (s : OrderBookV2) (fl : List ℕ) (bump i x : ℕ) (side : Side) (req : OrderRequest) : OrderBookV2 :=
  { s with freeList := fl, arenaBump := bump }.link i x side req

theorem linked_arena {y : ℕ} (hy : y ≠ kNil) :
    (linked s fl bump i x side req).arena y =
      if y = (s.level i).tail then
        { (update s.arena x { id := req.id, qty := req.qty, prev := (s.level i).tail, next := kNil } y) with next := x }
      else update s.arena x { id := req.id, qty := req.qty, prev := (s.level i).tail, next := kNil } y :=
  link_arena hy

theorem level_linked (hi : i < s.levels.length) :
    (linked s fl bump i x side req).level = update s.level i
      { head := if (s.level i).tail = kNil then x else (s.level i).head
        tail := x
        totalQty := (s.level i).totalQty + req.qty } :=
  level_link (s := { s with freeList := fl, arenaBump := bump }) hi

/-- The ids and quantities of the cells of the queues, after the link. -/
theorem Claimed.linked_of_mem (k : Claimed s c x fl bump) (h : Represents s c) {j y : ℕ} (hy : y ∈ c j) (i : ℕ)
    (side : Side) (req : OrderRequest) :
    ((linked s fl bump i x side req).arena y).id = (s.arena y).id ∧
      ((linked s fl bump i x side req).arena y).qty = (s.arena y).qty := by
  have hne : y ≠ x := fun e => k.not_mem j (e ▸ hy)
  rw [linked_arena (h.ne_nil hy), update_of_ne hne]
  split_ifs <;> exact ⟨rfl, rfl⟩

theorem Claimed.linked_self (k : Claimed s c x fl bump) (h : Represents s c) (i : ℕ) (side : Side)
    (req : OrderRequest) :
    ((linked s fl bump i x side req).arena x).id = req.id ∧
      ((linked s fl bump i x side req).arena x).qty = req.qty := by
  rw [linked_arena (k.lt_capacity.trans_le h.capacity).ne]
  split_ifs <;> simp

/-- The end of the queue of a level in use is one of its cells. -/
theorem Represents.tail_mem (h : Represents s c) (hi : c i ≠ []) : (s.level i).tail ∈ c i := by
  rw [(h.level i).tail]
  exact (getLastD_mem_or kNil (c i)).resolve_right hi

/-- A cell outside the queue of level `i` is not its end. -/
theorem Represents.ne_tail (h : Represents s c) {y : ℕ} (hy : y ≠ kNil) (hm : y ∉ c i) : y ≠ (s.level i).tail := by
  rintro rfl
  rcases eq_or_ne (c i) [] with he | he
  · exact hy ((h.tail_eq_nil i).mpr he)
  · exact hm (h.tail_mem he)

theorem LevelOk.linked (h : Represents s c) (k : Claimed s c x fl bump) (hi : i < s.levels.length) (side : Side)
    (req : OrderRequest) (j : ℕ) :
    LevelOk (linked s fl bump i x side req).arena ((linked s fl bump i x side req).level j)
      (update c i (c i ++ [x]) j) := by
  have hxnil : x ≠ kNil := (k.lt_capacity.trans_le h.capacity).ne
  have hne : ∀ {j y}, y ∈ c j → y ≠ x := fun hy e => k.not_mem _ (e ▸ hy)
  rw [level_linked hi]
  rcases eq_or_ne j i with rfl | hj
  · rw [update_self, update_self]
    have hl := h.level j
    refine ⟨hl.links.push (h.partition.nodup j) (fun y hy => ?_) (fun y hy => ?_) ?_ ?_, ?_, ?_, ?_⟩
    · rw [linked_arena (h.ne_nil hy), update_of_ne (hne hy)]
      split_ifs <;> rfl
    · rw [linked_arena (h.ne_nil hy), update_of_ne (hne hy), ← hl.tail]
      split_ifs <;> rfl
    · rw [linked_arena hxnil, update_self, ← hl.tail]
      split_ifs <;> rfl
    · rw [linked_arena hxnil, update_self, if_neg (h.ne_tail hxnil (k.not_mem j))]
    · show (if (s.level j).tail = kNil then x else (s.level j).head) = _
      split_ifs with ht
      · rw [(h.tail_eq_nil j).mp ht]
        rfl
      · obtain ⟨y, ys, hy⟩ := List.exists_cons_of_ne_nil ((h.tail_eq_nil j).not.mp ht)
        rw [hl.head, hy]
        rfl
    · simp
    · have hq : qtyIn (MatchingEngine.linked s fl bump j x side req).arena (c j) = qtyIn s.arena (c j) :=
        qtyIn_congr fun y hy => (k.linked_of_mem h hy j side req).2
      rw [qtyIn_append, qtyIn_cons, qtyIn_nil, (k.linked_self h j side req).2, hq]
      exact toNat_add_mod hl.total
  · rw [update_of_ne hj, update_of_ne hj]
    refine (h.level j).congr fun y hy => ?_
    have ht := h.ne_tail (h.ne_nil hy) fun hm => hj (h.partition.apart hy hm)
    rw [linked_arena (h.ne_nil hy), if_neg ht, update_of_ne (hne hy)]

/-- The levels in use after the link are those before it, and level `i`. -/
theorem update_append_ne_nil {j : ℕ} (hj : update c i (c i ++ [x]) j ≠ []) : c j ≠ [] ∨ j = i := by
  rcases eq_or_ne j i with rfl | hji
  · exact Or.inr rfl
  · rw [update_of_ne hji] at hj
    exact Or.inl hj

/-- **The cursors are right again** once they have been moved for the new order. -/
theorem Cursors.note (h : Cursors s.bestBidIdx s.bestAskIdx c) (hs : s.FitsAt side i) :
    Cursors (s.noteBest side i).bestBidIdx (s.noteBest side i).bestAskIdx (update c i (c i ++ [x])) := by
  have hbid := h.bid_ge
  have hask := h.ask_ge
  have hun := h.uncrossed
  cases side with
  | buy =>
    have hs : 0 ≤ s.bestAskIdx → (i : ℤ) < s.bestAskIdx := hs
    rw [noteBest_buy hbid]
    refine ⟨hbid.trans (le_max_left _ _), hask, fun ha => max_lt (hun ha) (hs ha), fun j hj => ?_⟩
    rcases update_append_ne_nil hj with hj | rfl
    · exact (h.split j hj).imp_left fun hle => hle.trans (le_max_left _ _)
    · exact Or.inl (le_max_right _ _)
  | sell =>
    have hs : s.bestBidIdx < (i : ℤ) := hs
    rw [noteBest_sell]
    refine ⟨hbid, ?_, fun _ => ?_, fun j hj => ?_⟩
    · show -1 ≤ if s.bestAskIdx < 0 then (i : ℤ) else min s.bestAskIdx i
      split_ifs <;> omega
    · show s.bestBidIdx < if s.bestAskIdx < 0 then (i : ℤ) else min s.bestAskIdx i
      split_ifs <;> omega
    · show (j : ℤ) ≤ s.bestBidIdx ∨
        (0 ≤ if s.bestAskIdx < 0 then (i : ℤ) else min s.bestAskIdx i) ∧
          (if s.bestAskIdx < 0 then (i : ℤ) else min s.bestAskIdx i) ≤ j
      rcases update_append_ne_nil hj with hj | rfl
      · have := h.split j hj
        split_ifs <;> omega
      · split_ifs <;> omega

/-- Which side a level in use is on does not change. -/
theorem noteBest_le_iff (h : Cursors s.bestBidIdx s.bestAskIdx c) (hs : s.FitsAt side i) {j : ℕ} (hj : c j ≠ []) :
    (j : ℤ) ≤ (s.noteBest side i).bestBidIdx ↔ (j : ℤ) ≤ s.bestBidIdx := by
  cases side with
  | buy =>
    have hs : 0 ≤ s.bestAskIdx → (i : ℤ) < s.bestAskIdx := hs
    rw [noteBest_buy h.bid_ge]
    show (j : ℤ) ≤ max s.bestBidIdx i ↔ _
    have := h.split j hj
    omega
  | sell =>
    rw [noteBest_sell]

/-- The new order is on its own side. -/
theorem noteBest_side (h : Cursors s.bestBidIdx s.bestAskIdx c) (hs : s.FitsAt side i) :
    side = .buy ↔ (i : ℤ) ≤ (s.noteBest side i).bestBidIdx := by
  cases side with
  | buy =>
    rw [noteBest_buy h.bid_ge]
    exact iff_of_true rfl (le_max_right _ _)
  | sell =>
    have hs : s.bestBidIdx < (i : ℤ) := hs
    rw [noteBest_sell]
    exact iff_of_false (by decide) (not_le.mpr hs)

/-- The book after an order has come to rest at level `i`. -/
def rested (s : OrderBookV2) (fl : List ℕ) (bump i x : ℕ) (side : Side) (req : OrderRequest) : OrderBookV2 :=
  (linked s fl bump i x side req).noteBest side i

theorem rested_rest (h : Cursors s.bestBidIdx s.bestAskIdx c) :
    rested s fl bump i x side req =
      { linked s fl bump i x side req with
        bestBidIdx := (s.noteBest side i).bestBidIdx, bestAskIdx := (s.noteBest side i).bestAskIdx } := by
  cases side with
  | buy =>
    rw [rested, noteBest_buy h.bid_ge, noteBest_buy (by exact h.bid_ge)]
    rfl
  | sell =>
    rw [rested, noteBest_sell, noteBest_sell]
    rfl

theorem rested_params (h : Cursors s.bestBidIdx s.bestAskIdx c) :
    (rested s fl bump i x side req).arenaCapacity = s.arenaCapacity ∧
      (rested s fl bump i x side req).initialWindow = s.initialWindow := by
  rw [rested_rest h]
  exact ⟨rfl, rfl⟩

/-- **Resting an order** keeps the representation. -/
theorem Represents.rested (h : Represents s c) (k : Claimed s c x fl bump) (hi : i < s.levels.length)
    (hs : s.FitsAt side i) (hp : InI64 (s.base + i)) :
    Represents (rested s fl bump i x side req) (update c i (c i ++ [x])) := by
  rw [rested_rest h.cursors]
  refine { capacity := h.capacity
           bump_le := k.bump_le
           partition := Partition.claim h k i
           level := LevelOk.linked h k hi side req
           cursors := h.cursors.note hs
           entry := fun {id e} he => ?_
           price := fun j hj => ?_
           unopened := fun hb => ?_
           opened := h.opened }
  · have he : (s.index.set req.id ⟨side, i, x⟩).find id = some e := he
    rw [FlatHashMap.find_set] at he
    split_ifs at he with hid
    · -- the new entry
      obtain rfl := Option.some.inj he
      refine ⟨Int.natCast_nonneg i, ?_, (k.linked_self h i side req).1.trans hid.symm, noteBest_side h.cursors hs⟩
      rw [Int.toNat_natCast, update_self]
      simp
    · have hk := h.entry he
      have hne := List.ne_nil_of_mem hk.mem
      have hlvl : ((e.levelIdx.toNat : ℕ) : ℤ) = e.levelIdx := Int.toNat_of_nonneg hk.nonneg
      refine ⟨hk.nonneg, ?_, (k.linked_of_mem h hk.mem i side req).1.trans hk.id, ?_⟩
      · rcases eq_or_ne e.levelIdx.toNat i with hl | hl
        · rw [hl, update_self]
          exact List.mem_append_left _ (hl ▸ hk.mem)
        · rw [update_of_ne hl]
          exact hk.mem
      · have := noteBest_le_iff h.cursors hs hne
        rw [hlvl] at this
        exact hk.side.trans this.symm
  · rcases update_append_ne_nil hj with hj | rfl
    · exact h.price j hj
    · exact hp
  · have hl := h.unopened hb
    rw [hl] at hi
    cases hi

theorem Live.rested (h : Represents s c) (hl : Live s c) :
    Live (rested s fl bump i x side req) (update c i (c i ++ [x])) := by
  have hkeep : ∀ j, c j ≠ [] ∨ j = i → update c i (c i ++ [x]) j ≠ [] := by
    rintro j (hj | rfl)
    · rcases eq_or_ne j i with rfl | hji
      · simp
      · rwa [update_of_ne hji]
    · simp
  rw [rested_rest h.cursors]
  cases side with
  | buy =>
    refine ⟨fun hb => hkeep _ ?_, fun ha => hkeep _ (Or.inl ?_)⟩
    · rw [noteBest_buy h.cursors.bid_ge] at hb ⊢
      show c (max s.bestBidIdx i).toNat ≠ [] ∨ (max s.bestBidIdx i).toNat = i
      rcases le_or_gt s.bestBidIdx i with hle | hlt
      · exact Or.inr (by omega)
      · rw [max_eq_left hlt.le]
        exact Or.inl (hl.bid (by omega))
    · rw [noteBest_buy h.cursors.bid_ge] at ha ⊢
      exact hl.ask ha
  | sell =>
    refine ⟨fun hb => hkeep _ (Or.inl ?_), fun ha => hkeep _ ?_⟩
    · rw [noteBest_sell] at hb ⊢
      exact hl.bid hb
    · rw [noteBest_sell] at ha ⊢
      show c (if s.bestAskIdx < 0 then (i : ℤ) else min s.bestAskIdx i).toNat ≠ [] ∨
        (if s.bestAskIdx < 0 then (i : ℤ) else min s.bestAskIdx i).toNat = i
      split_ifs with hn
      · exact Or.inr (Int.toNat_natCast i)
      · rcases le_or_gt (i : ℤ) s.bestAskIdx with hle | hlt
        · exact Or.inr (by omega)
        · rw [min_eq_left hlt.le]
          exact Or.inl (hl.ask (by omega))

theorem settled_rested (h : Settled s c) (k : Claimed s c x fl bump) (hi : i < s.levels.length) (hs : s.FitsAt side i)
    (hp : InI64 (s.base + i)) : Settled (rested s fl bump i x side req) (update c i (c i ++ [x])) :=
  ⟨h.toRepresents.rested k hi hs hp, h.toLive.rested h.toRepresents⟩

theorem Tracked.rested (t : Tracked s c) (h : Represents s c) (k : Claimed s c x fl bump)
    (hid : req.id ∉ (s.bookOf c).ids) :
    Tracked (rested s fl bump i x side req) (update c i (c i ++ [x])) := by
  rw [rested_rest h.cursors]
  refine ⟨fun {j y} hy => ?_, ?_⟩
  · show ∃ e, (s.index.set req.id ⟨side, i, x⟩).find ((linked s fl bump i x side req).arena y).id = some e ∧ _
    have hmem : y ∈ c j ∨ y = x := by
      rcases eq_or_ne j i with rfl | hj
      · simpa using hy
      · rw [update_of_ne hj] at hy
        exact Or.inl hy
    rcases hmem with hy | rfl
    · obtain ⟨e, he, hn⟩ := t.find hy
      have hne : (s.arena y).id ≠ req.id := fun e' => hid (h.mem_ids.mpr ⟨j, y, hy, e'⟩)
      exact ⟨e, by rw [(k.linked_of_mem h hy i side req).1, FlatHashMap.find_set, if_neg hne, he], hn⟩
    · exact ⟨_, by rw [(k.linked_self h i side req).1, FlatHashMap.find_set, if_pos rfl], rfl⟩
  · have hnone : ¬ (s.index.find req.id).isSome := fun hf => hid ((t.find_isSome h).mp hf)
    have := t.size
    have := k.count
    show (s.index.set req.id ⟨side, i, x⟩).size + fl.length = bump
    rw [FlatHashMap.size_set, if_neg hnone]
    omega

/-- The queues after an order has come to rest. -/
theorem queue_rested (h : Represents s c) (k : Claimed s c x fl bump) (hp : req.price = s.base + i) :
    (rested s fl bump i x side req).queue (update c i (c i ++ [x])) =
      update (s.queue c) i (s.queue c i ++ [req.resting req.qty.toNat]) := by
  rw [rested_rest h.cursors]
  funext j
  have hold : ∀ y ∈ c j, (linked s fl bump i x side req).orderAt j y = s.orderAt j y := by
    intro y hy
    obtain ⟨h1, h2⟩ := k.linked_of_mem h hy i side req
    simp only [orderAt, h1, h2]
    rfl
  rcases eq_or_ne j i with rfl | hj
  · rw [update_self, queue, update_self, List.map_append, queue]
    obtain ⟨h1, h2⟩ := k.linked_self h j side req
    refine congrArg₂ _ (List.map_congr_left hold) ?_
    show [(linked s fl bump j x side req).orderAt j x] = _
    rw [orderAt, h1, h2, OrderRequest.resting, hp]
    rfl
  · rw [update_of_ne hj, queue, update_of_ne hj, queue]
    exact List.map_congr_left hold

/-- The levels of the bids after an order has come to rest. -/
theorem cut_rested (h : Represents s c) (side : Side) (req : OrderRequest) :
    (rested s fl bump i x side req).cut = if side = .buy then max s.cut (i + 1) else s.cut := by
  have hcut := h.cut_eq
  rw [rested_rest h.cursors]
  cases side with
  | buy =>
    rw [noteBest_buy h.cursors.bid_ge, if_pos rfl]
    show (max s.bestBidIdx i + 1).toNat = _
    omega
  | sell =>
    rw [noteBest_sell, if_neg (show ¬ Side.sell = Side.buy by simp)]
    rfl

/-- **Joining the queue of a level** is joining the side, and the other side does not see it. -/
theorem Settled.sides_rested {I : Type*} (h : Settled s c) (hi : i < s.levels.length) (hs : s.FitsAt side i)
    {q : ℕ → List (Foundation.Order ℤ I)} (hq : ∀ j, c j = [] → q j = []) (hprice : ∀ j, ∀ o ∈ q j, o.price = s.base + j)
    {o : Foundation.Order ℤ I} (ho : o.price = s.base + i) :
    (rested s fl bump i x side req).sides (update q i (q i ++ [o])) side = enqueue side.ahead o (s.sides q side) ∧
      (rested s fl bump i x side req).sides (update q i (q i ++ [o])) side.opposite = s.sides q side.opposite := by
  have hcut := h.cut_eq
  have hcl := cut_le_length h.toRepresents h.toLive
  have hlen : (rested s fl bump i x side req).levels.length = s.levels.length := by
    rw [rested_rest h.cursors]
    exact List.length_set
  have hcut' : (rested s fl bump i x side req).cut = if side = .buy then max s.cut (i + 1) else s.cut :=
    cut_rested h.toRepresents side req
  cases side with
  | buy =>
    have hs : 0 ≤ s.bestAskIdx → (i : ℤ) < s.bestAskIdx := hs
    rw [if_pos rfl] at hcut'
    generalize hk' : max s.cut (i + 1) = k' at hcut'
    -- between the old cut and the new one nothing rests
    have hempty : ∀ j, s.cut ≤ j → j < k' → q j = [] := by
      intro j h1 h2
      refine hq j ?_
      by_contra hj
      obtain ⟨ha, hle⟩ := h.ask_le hj h1
      have := h.cursors.uncrossed ha
      have := hs ha
      omega
    constructor
    · rw [sides, hcut', sides, ← down_skip (show s.cut ≤ k' by omega) hempty, enqueue_down hprice ho (by omega)]
      · intro j hj
        simp only [Side.ahead, decide_eq_true_eq]
        omega
      · intro j hj
        simp only [Side.ahead, decide_eq_false_iff_not]
        omega
    · rw [Side.opposite, sides, sides, hcut', hlen, up_skip (show s.cut ≤ k' by omega) (by omega) hempty]
      exact up_congr fun j h1 _ => update_of_ne (by omega) _ _
  | sell =>
    have hs : s.bestBidIdx < (i : ℤ) := hs
    rw [if_neg (by simp)] at hcut'
    constructor
    · rw [sides, hcut', hlen, sides, enqueue_up hprice ho (by omega) hi]
      · intro j hj
        simp only [Side.ahead, decide_eq_true_eq]
        omega
      · intro j hj
        simp only [Side.ahead, decide_eq_false_iff_not]
        omega
    · rw [Side.opposite, sides, sides, hcut']
      exact down_congr fun j hj => update_of_ne (by omega) _ _

/-- **A resting order joins the book.** -/
theorem bookOf_rested (h : Settled s c) (k : Claimed s c x fl bump) (hi : i < s.levels.length)
    (hs : s.FitsAt req.side i) (hp : req.price = s.base + i) :
    (rested s fl bump i x req.side req).bookOf (update c i (c i ++ [x])) =
      (s.bookOf c).join req req.qty.toNat := by
  have hq : (rested s fl bump i x req.side req).queue (update c i (c i ++ [x])) =
      update (s.queue c) i (s.queue c i ++ [req.resting req.qty.toNat]) := queue_rested h.toRepresents k hp
  have hp' : (req.resting req.qty.toNat).price = s.base + i := hp
  have hjoin : (rested s fl bump i x req.side req).sides (update (s.queue c) i (s.queue c i ++ [_])) req.side = _ ∧ _ :=
    h.sides_rested hi hs (fun j hj => queue_eq_nil.mpr hj) (fun j o ho => price_of_mem_queue ho) hp'
  rw [← hq] at hjoin
  obtain ⟨h1, h2⟩ := hjoin
  cases hside : req.side with
  | buy =>
    rw [hside] at h1 h2
    rw [Book.join, hside]
    exact Book.ext h1 h2
  | sell =>
    rw [hside] at h1 h2
    rw [Book.join, hside]
    exact Book.ext h2 h1

end Link

/-! ### The two together -/

/-- How an attempt to rest an order ends, in the layout `c'`. -/
structure RestResult (s : OrderBookV2) (c : Layout) (req : OrderRequest) (thrown : Option Exn) (s' : OrderBookV2)
    (c' : Layout) : Prop where
  /-- The representation is kept. -/
  settled : Settled s' c'
  /-- A new id is in the index afterwards. -/
  tracked : Tracked s c → (thrown = none → req.id ∉ (s.bookOf c).ids) → Tracked s' c'
  /-- The order has joined the book, -/
  joined : thrown = none → s'.bookOf c' = (s.bookOf c).join req req.qty.toNat
  /-- or no order has changed. -/
  unchanged : thrown ≠ none → s'.bookOf c' = s.bookOf c
  /-- The arena is exhausted only if every cell holds an order. -/
  exhausted : thrown = some arenaExhausted → (s.bookOf c).orders.length = s.arenaCapacity
  /-- The size of the arena and the window do not change. -/
  params : s'.arenaCapacity = s.arenaCapacity ∧ s'.initialWindow = s.initialWindow
  /-- The price axis stays moderate. -/
  base : Moderate s req.price → BaseOk s'

/-- **`push_back_order` links a claimed cell**, or there is none. -/
theorem Represents.pushBackOrder (h : Represents s c) (hi : i < s.levels.length) (side : Side) (req : OrderRequest) :
    (∃ x fl bump, s.pushBackOrder i side req = .ok (none, linked s fl bump i x side req) ∧ Claimed s c x fl bump) ∨
      (s.pushBackOrder i side req = .ok (some arenaExhausted, s) ∧ s.freeList = [] ∧ s.arenaBump = s.arenaCapacity) := by
  rcases h.allocNode with ⟨x, fl, bump, halloc, k⟩ | ⟨halloc, hf, hbump⟩
  · have htail : (s.level i).tail = kNil ∨ (s.level i).tail < s.arenaCapacity ∧ (s.level i).tail ≠ x := by
      rcases eq_or_ne (c i) [] with he | he
      · exact Or.inl ((h.tail_eq_nil i).mpr he)
      · have hm := h.tail_mem he
        exact Or.inr ⟨h.lt_capacity hm, fun e => k.not_mem i (e ▸ hm)⟩
    refine Or.inl ⟨x, fl, bump, ?_, k⟩
    rw [OrderBookV2.pushBackOrder, halloc]
    show (({ s with freeList := fl, arenaBump := bump } : OrderBookV2).linkBack x i side req >>= _) = _
    rw [linkBack_eq (by exact hi) (by exact k.lt_capacity) (by exact htail)]
    rfl
  · refine Or.inr ⟨?_, hf, hbump⟩
    rw [OrderBookV2.pushBackOrder, halloc]

/-- The price of an order is strictly on its own side of the best price across. -/
def StaysBehind (b : Book) (req : OrderRequest) : Prop :=
  ∀ p ∈ b.best req.side.opposite, req.side.opposite.ahead req.price p

theorem Settled.fitsAt (h : Settled s c) {req : OrderRequest} (hb : StaysBehind (s.bookOf c) req) {idx : ℤ}
    (hl : Leveled s req.price idx) : s.FitsAt req.side idx := by
  have hp := hl.price
  have hn := hl.nonneg
  rw [StaysBehind] at hb
  cases hside : req.side with
  | buy =>
    show 0 ≤ s.bestAskIdx → idx < s.bestAskIdx
    intro ha
    rw [hside, Side.opposite, h.best_sell, if_pos ha] at hb
    have := hb _ rfl
    simp only [Side.ahead, decide_eq_true_eq] at this
    omega
  | sell =>
    rw [hside, Side.opposite, h.best_buy] at hb
    by_cases hbid : 0 ≤ s.bestBidIdx
    · rw [if_pos hbid] at hb
      have := hb _ rfl
      simp only [Side.ahead, decide_eq_true_eq] at this
      show s.bestBidIdx < idx
      omega
    · show s.bestBidIdx < idx
      omega

/-- **An order that does not cross comes to rest**, or an exception leaves the orders alone. -/
theorem Settled.rest (h : Settled s c) {req : OrderRequest} (hp : InI64 req.price) (hb : StaysBehind (s.bookOf c) req) :
    Ends (fun u => u = .overflow ∧ ¬ Moderate s req.price) (s.rest req) fun r =>
      ∃ c', RestResult s c req r.1 r.2 c' := by
  rw [OrderBookV2.rest]
  refine Ends.bind (h.ensureIndexForPrice req.price) ?_
  rintro ⟨idx, s₁⟩ ⟨c₁, hre, hok, herr⟩
  have hs := hre.settled
  cases idx with
  | error e =>
    exact ⟨c₁, hs, fun t _ => hre.tracked t, fun hn => absurd hn (by simp), fun _ => hre.book,
      fun he => absurd (Option.some.inj he) (herr e rfl), ⟨hre.arena.2.2, hre.window⟩, hre.base⟩
  | ok idx =>
    have hl := hok idx rfl
    have hfit := hs.fitsAt (hre.book.symm ▸ hb) hl
    have hlt := hl.lt
    have hprice := hl.price
    obtain ⟨i, rfl⟩ := Int.eq_ofNat_of_zero_le hl.nonneg
    have hi : i < s₁.levels.length := by
      have hlt : (i : ℤ) < s₁.levels.length := hlt
      omega
    have hprice : s₁.base + (i : ℤ) = req.price := hprice
    rcases hs.toRepresents.pushBackOrder hi req.side req with ⟨x, fl, bump, hlink, k⟩ | ⟨hpush, hf, hbump⟩
    · refine Ends.bind_of_ok hlink ?_
      have hp' : InI64 (s₁.base + (i : ℤ)) := by rw [hprice]; exact hp
      have hparams : (rested s₁ fl bump i x req.side req).arenaCapacity = s₁.arenaCapacity ∧ _ := rested_params hs.cursors
      refine ⟨_, settled_rested hs k hi hfit hp', fun t hid => ?_, fun _ => ?_, fun hn => absurd rfl hn,
        fun he => absurd he (by simp), ⟨hparams.1.trans hre.arena.2.2, hparams.2.trans hre.window⟩, fun hm => ?_⟩
      · exact (hre.tracked t).rested hs.toRepresents k (by rw [hre.book]; exact hid rfl)
      · rw [← hre.book]
        exact bookOf_rested hs k hi hfit hprice.symm
      · have hbase := hre.base hm
        show BaseOk (rested s₁ fl bump i x req.side req)
        rw [rested_rest hs.cursors]
        exact ⟨hbase.window, hbase.base⟩
    · refine Ends.bind_of_ok hpush ?_
      refine ⟨c₁, hs, fun t _ => hre.tracked t, fun hn => absurd hn (by simp), fun _ => hre.book, fun _ => ?_,
        ⟨hre.arena.2.2, hre.window⟩, hre.base⟩
      have hlen := hs.length_orders
      rw [hf, hbump, hre.book, hre.arena.2.2] at hlen
      simpa using hlen

end MatchingEngine
