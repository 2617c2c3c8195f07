import MatchingEngine.Core.Invariant
import Mathlib.Tactic.Simps.Basic

/-!
# What one operation does to the representation

Every operation of the book is made of a few changes of the representation: a cell loses
quantity (`debit`), a cell is unlinked and freed (`unlink`), a cell is claimed and linked at
the end of a level (`link`), the levels are opened or grown, a cursor moves over empty
levels. Each is given here as a function of the book, with the layout it leads to; the
functions of the code are computed from them in `Matching.lean` and `Resting.lean`.
-/

namespace MatchingEngine

open Foundation Function OrderBookV2

variable {s : OrderBookV2} {c : Layout} {i x : ℕ}

/-! ### Array accesses in bounds -/

namespace OrderBookV2

/-- A level replaced. -/
@[simps] def setLevel (s : OrderBookV2) (i : ℕ) (l : PriceLevel) : OrderBookV2 := { s with levels := s.levels.set i l }

/-- A cell replaced. -/
@[simps] def setNode (s : OrderBookV2) (x : ℕ) (n : Node) : OrderBookV2 := { s with arena := update s.arena x n }

theorem levelAt_ok (hi : i < s.levels.length) : s.levelAt i = .ok (s.level i) := by
  rw [levelAt, if_pos (by omega), Int.toNat_natCast]

theorem nodeAt_ok (hx : x < s.arenaCapacity) : s.nodeAt x = .ok (s.arena x) := by
  rw [nodeAt, if_pos hx]

theorem modifyLevel_ok (hi : i < s.levels.length) (f : PriceLevel → PriceLevel) :
    s.modifyLevel i f = .ok (s.setLevel i (f (s.level i))) := by
  rw [modifyLevel, levelAt_ok hi]
  rfl

theorem modifyNode_ok (hx : x < s.arenaCapacity) (f : Node → Node) :
    s.modifyNode x f = .ok (s.setNode x (f (s.arena x))) := by
  rw [modifyNode, nodeAt_ok hx]
  rfl

theorem level_setLevel (hi : i < s.levels.length) (l : PriceLevel) :
    (s.setLevel i l).level = update s.level i l := by
  funext j
  simp only [level, setLevel_levels, List.getD_eq_getElem?_getD, List.getElem?_set, update_apply]
  split_ifs with h1 h2
  · rfl
  · exact absurd h1.symm h2
  · omega
  · rfl

theorem level_congr {s' : OrderBookV2} (h : s'.levels = s.levels) : s'.level = s.level := by
  funext j
  simp only [level, h]

@[simp] theorem level_setNode (n : Node) : (s.setNode x n).level = s.level := rfl

end OrderBookV2

/-! ### The quantity of a level -/

@[simp] theorem qtyIn_nil {arena : ℕ → Node} : qtyIn arena [] = 0 := rfl

@[simp] theorem qtyIn_cons {arena : ℕ → Node} {xs : List ℕ} :
    qtyIn arena (x :: xs) = (arena x).qty.toNat + qtyIn arena xs := by simp [qtyIn]

@[simp] theorem qtyIn_append {arena : ℕ → Node} {xs ys : List ℕ} :
    qtyIn arena (xs ++ ys) = qtyIn arena xs + qtyIn arena ys := by simp [qtyIn]

theorem qtyIn_congr {arena arena' : ℕ → Node} {xs : List ℕ} (h : ∀ y ∈ xs, (arena' y).qty = (arena y).qty) :
    qtyIn arena' xs = qtyIn arena xs := by
  rw [qtyIn, qtyIn, List.map_congr_left fun y hy => by rw [h y hy]]

theorem qtyIn_update {arena : ℕ → Node} {xs : List ℕ} (hx : x ∉ xs) (n : Node) :
    qtyIn (update arena x n) xs = qtyIn arena xs :=
  qtyIn_congr fun y hy => by rw [update_of_ne (ne_of_mem_of_not_mem hy hx)]

/-- Taking away one summand, in 64 bits. -/
theorem toNat_sub_mod {a b : UInt64} {m : ℕ} (h : a.toNat = (m + b.toNat) % 2 ^ 64) :
    (a - b).toNat = m % 2 ^ 64 := by
  have hb := b.toNat_lt
  rw [UInt64.toNat_sub, h]
  omega

theorem toNat_add_mod {a b : UInt64} {m : ℕ} (h : a.toNat = m % 2 ^ 64) :
    (a + b).toNat = (m + b.toNat) % 2 ^ 64 := by
  rw [UInt64.toNat_add, h]
  omega

/-- A level does not see the cells outside its queue. -/
theorem LevelOk.congr {arena arena' : ℕ → Node} {l : PriceLevel} {xs : List ℕ} (h : LevelOk arena l xs)
    (he : ∀ y ∈ xs, arena' y = arena y) : LevelOk arena' l xs where
  links := h.links.congr (fun y hy => by rw [he y hy]) (fun y hy => by rw [he y hy])
  head := h.head
  tail := h.tail
  total := by
    have hq : qtyIn arena' xs = qtyIn arena xs := qtyIn_congr fun y hy => by rw [he y hy]
    rw [h.total, hq]

/-- A cell in the queue of level `i` is in no other queue. -/
theorem Partition.not_mem {freeList : List ℕ} {bump : ℕ} (h : Partition freeList bump c) (hx : x ∈ c i) {j : ℕ}
    (hj : j ≠ i) : x ∉ c j := fun hxj => hj (h.apart hxj hx)

/-! ### A cell loses quantity -/

namespace OrderBookV2

/-- The cell `x` of level `i` loses the quantity `d`. -/
def debit (s : OrderBookV2) (i x : ℕ) (d : Quantity) : OrderBookV2 :=
  (s.setNode x { s.arena x with qty := (s.arena x).qty - d }).setLevel i
    { s.level i with totalQty := (s.level i).totalQty - d }

@[simp] theorem debit_arena (d : Quantity) :
    (s.debit i x d).arena = update s.arena x { s.arena x with qty := (s.arena x).qty - d } := rfl

@[simp] theorem debit_index (d : Quantity) : (s.debit i x d).index = s.index := rfl

theorem debit_id (d : Quantity) (y : ℕ) : ((s.debit i x d).arena y).id = (s.arena y).id := by
  rw [debit_arena, update_apply]
  split_ifs with h
  · rw [h]
  · rfl

end OrderBookV2

theorem Represents.debit (h : Represents s c) (hx : x ∈ c i) {d : Quantity} (hd : d ≤ (s.arena x).qty) :
    Represents (s.debit i x d) c := by
  have hi := h.lt_length (List.ne_nil_of_mem hx)
  refine { h with
    level := fun j => ?_
    entry := fun he => ?_
    unopened := fun hb => ?_ }
  · have hl : (s.debit i x d).level = _ := level_setLevel (s := s.setNode x _) hi _
    rw [hl]
    rcases eq_or_ne j i with rfl | hj
    · rw [update_self]
      have hlj := h.level j
      refine ⟨hlj.links.congr ?_ ?_, hlj.head, hlj.tail, ?_⟩
      · intro y _
        rw [debit_arena, update_apply]
        split_ifs with hy
        · rw [hy]
        · rfl
      · intro y _
        rw [debit_arena, update_apply]
        split_ifs with hy
        · rw [hy]
        · rfl
      · -- one summand of the total gets smaller by `d`
        obtain ⟨as, bs, hc⟩ := List.append_of_mem hx
        have hnd := h.partition.nodup j
        rw [hc] at hnd hlj ⊢
        have hdis := List.nodup_append.mp hnd
        have hxb := (List.nodup_cons.mp hdis.2.1).1
        have hxa : x ∉ as := fun hm => hdis.2.2 x hm x (by simp) rfl
        apply toNat_sub_mod
        rw [hlj.total, qtyIn_append, qtyIn_append, qtyIn_cons, qtyIn_cons, debit_arena, qtyIn_update hxa,
          qtyIn_update hxb, update_self, UInt64.toNat_sub_of_le _ _ hd]
        rw [UInt64.le_iff_toNat_le] at hd
        congr 1
        omega
    · rw [update_of_ne hj]
      refine (h.level j).congr fun y hy => ?_
      rw [debit_arena, update_of_ne (ne_of_mem_of_not_mem hy (h.partition.not_mem hx hj))]
  · have := h.entry he
    exact { this with id := (debit_id d _).trans this.id }
  · have := h.unopened hb
    rw [this] at hi
    simp at hi

theorem Tracked.debit (t : Tracked s c) (d : Quantity) : Tracked (s.debit i x d) c where
  find := fun hy => by rw [debit_id]; exact t.find hy
  size := t.size

/-! ### A cell leaves its queue -/

namespace OrderBookV2

/-- The links after the neighbours of cell `x` have been joined. -/
def joined (s : OrderBookV2) (x : ℕ) : ℕ → Node :=
  let n := s.arena x
  let arena := if n.prev ≠ kNil then update s.arena n.prev { s.arena n.prev with next := n.next } else s.arena
  if n.next ≠ kNil then update arena n.next { arena n.next with prev := n.prev } else arena

/-- Level `i` without its cell `x`. -/
def levelWithout (s : OrderBookV2) (i x : ℕ) : PriceLevel where
  head := if (s.arena x).prev ≠ kNil then (s.level i).head else (s.arena x).next
  tail := if (s.arena x).next ≠ kNil then (s.level i).tail else (s.arena x).prev
  totalQty := (s.level i).totalQty - (s.arena x).qty

/-- The cell `x` of level `i` is unlinked and freed, and its id leaves the index. -/
def unlink (s : OrderBookV2) (i x : ℕ) : OrderBookV2 :=
  { s with
    arena := s.joined x
    levels := s.levels.set i (s.levelWithout i x)
    freeList := x :: s.freeList
    index := (s.index.erase (s.arena x).id).2 }

/-- What `joined` does to a cell. -/
theorem joined_eq {y : ℕ} (hy : y ≠ kNil) :
    s.joined x y =
      { id := (s.arena y).id
        qty := (s.arena y).qty
        prev := if y = (s.arena x).next then (s.arena x).prev else (s.arena y).prev
        next := if y = (s.arena x).prev then (s.arena x).next else (s.arena y).next } := by
  simp only [joined]
  by_cases hn : y = (s.arena x).next
  · subst hn
    by_cases hp : (s.arena x).next = (s.arena x).prev <;> grind
  · by_cases hp : y = (s.arena x).prev
    · subst hp
      grind
    · split_ifs <;> simp [update_of_ne hp, update_of_ne hn]

theorem joined_id {y : ℕ} (hy : y ≠ kNil) : (s.joined x y).id = (s.arena y).id := by rw [joined_eq hy]

theorem joined_qty {y : ℕ} (hy : y ≠ kNil) : (s.joined x y).qty = (s.arena y).qty := by rw [joined_eq hy]

theorem joined_next {y : ℕ} (hy : y ≠ kNil) :
    (s.joined x y).next = if y = (s.arena x).prev then (s.arena x).next else (s.arena y).next := by
  rw [joined_eq hy]

theorem joined_prev {y : ℕ} (hy : y ≠ kNil) :
    (s.joined x y).prev = if y = (s.arena x).next then (s.arena x).prev else (s.arena y).prev := by
  rw [joined_eq hy]

theorem level_unlink (hi : i < s.levels.length) :
    (s.unlink i x).level = update s.level i (s.levelWithout i x) := by
  rw [← level_setLevel hi]
  exact level_congr rfl

end OrderBookV2

theorem Partition.release {freeList : List ℕ} {bump : ℕ} {as bs : List ℕ} (h : Partition freeList bump c)
    (hc : c i = as ++ x :: bs) : Partition (x :: freeList) bump (update c i (as ++ bs)) := by
  have hx : x ∈ c i := by simp [hc]
  have hnd := h.nodup i
  rw [hc] at hnd
  have hsub : ∀ {j y}, y ∈ update c i (as ++ bs) j → y ∈ c j ∧ y ≠ x := by
    intro j y hy
    rcases eq_or_ne j i with rfl | hj
    · rw [update_self] at hy
      refine ⟨?_, fun e => ?_⟩
      · rw [hc]
        simp only [List.mem_append, List.mem_cons] at hy ⊢
        tauto
      · have := (List.nodup_middle.mp hnd)
        exact (List.nodup_cons.mp this).1 (e ▸ hy)
    · rw [update_of_ne hj] at hy
      exact ⟨hy, fun e => h.not_mem hx hj (e ▸ hy)⟩
  refine ⟨?_, fun j => ?_, fun h1 h2 => h.apart (hsub h1).1 (hsub h2).1, fun {j y} hy hm => ?_, fun y => ?_⟩
  · exact List.nodup_cons.mpr ⟨fun hf => h.free_apart hf hx, h.free_nodup⟩
  · rcases eq_or_ne j i with rfl | hj
    · rw [update_self]
      exact (List.nodup_cons.mp (List.nodup_middle.mp hnd)).2
    · rw [update_of_ne hj]
      exact h.nodup j
  · rcases List.mem_cons.mp hy with rfl | hf
    · exact (hsub hm).2 rfl
    · exact h.free_apart hf (hsub hm).1
  · rw [h.lt_iff, List.mem_cons]
    constructor
    · rintro (hf | ⟨j, hj⟩)
      · exact Or.inl (Or.inr hf)
      · rcases eq_or_ne y x with hyx | hyx
        · exact Or.inl (Or.inl hyx)
        · refine Or.inr ⟨j, ?_⟩
          rcases eq_or_ne j i with rfl | hji
          · rw [update_self]
            rw [hc] at hj
            simpa [hyx] using hj
          · rwa [update_of_ne hji]
    · rintro ((rfl | hf) | ⟨j, hj⟩)
      · exact Or.inr ⟨i, hx⟩
      · exact Or.inl hf
      · exact Or.inr ⟨j, (hsub hj).1⟩

/-- Emptying a part of a level puts no new level in use. -/
theorem update_ne_nil {zs : List ℕ} (hne : c i ≠ []) {j : ℕ} (hj : update c i zs j ≠ []) : c j ≠ [] := by
  rcases eq_or_ne j i with rfl | hji
  · exact hne
  · rwa [update_of_ne hji] at hj

theorem LevelOk.unlink (h : Represents s c) {as bs : List ℕ} (hc : c i = as ++ x :: bs) :
    LevelOk (s.joined x) (s.levelWithout i x) (as ++ bs) := by
  have hl := h.level i
  have hnd := h.partition.nodup i
  have hnil := h.nil_not_mem i
  rw [hc] at hl hnd hnil
  obtain ⟨hprev, hnext⟩ := hl.links.mid
  have hne : ∀ y ∈ as ++ bs, y ≠ kNil := by
    intro y hy e
    apply hnil
    rw [← e]
    simp only [List.mem_append, List.mem_cons] at hy ⊢
    tauto
  refine ⟨?_, ?_, ?_, ?_⟩
  · exact hl.links.unlink hnd hnil hnil (fun y hy => joined_next (hne y hy)) fun y hy => joined_prev (hne y hy)
  · show (if (s.arena x).prev ≠ kNil then (s.level i).head else (s.arena x).next) = _
    rw [hprev, hnext, hl.head]
    cases as with
    | nil => simp
    | cons a as =>
      have hlast : (a :: as).getLastD kNil ≠ kNil := by
        rcases getLastD_mem_or kNil (a :: as) with hm | he
        · exact hne _ (List.mem_append_left _ hm)
        · cases he
      rw [if_pos hlast]
      rfl
  · show (if (s.arena x).next ≠ kNil then (s.level i).tail else (s.arena x).prev) = _
    rw [hprev, hnext, hl.tail]
    cases bs with
    | nil => simp
    | cons b bs =>
      have hb : b ≠ kNil := hne b (by simp)
      rw [List.headD_cons, if_pos hb]
      simp [List.getLastD_eq_getLast?, List.getLast?_append, List.getLast?_cons]
  · have hq : qtyIn (s.joined x) (as ++ bs) = qtyIn s.arena (as ++ bs) := qtyIn_congr fun y hy => joined_qty (hne y hy)
    apply toNat_sub_mod
    rw [hl.total, hq, qtyIn_append, qtyIn_append, qtyIn_cons]
    congr 1
    omega

/-- **Unlinking a cell.** -/
theorem Represents.unlink (h : Represents s c) {as bs : List ℕ} (hc : c i = as ++ x :: bs) :
    Represents (s.unlink i x) (update c i (as ++ bs)) := by
  have hx : x ∈ c i := by simp [hc]
  have hne := List.ne_nil_of_mem hx
  have hi := h.lt_length hne
  refine { h with
    partition := h.partition.release hc
    level := fun j => ?_
    cursors := ?_
    entry := fun {id e} he => ?_
    price := fun j hj => h.price j (update_ne_nil hne hj)
    unopened := fun hb => ?_ }
  · rw [level_unlink hi]
    rcases eq_or_ne j i with rfl | hj
    · rw [update_self, update_self]
      exact LevelOk.unlink h hc
    · rw [update_of_ne hj, update_of_ne hj]
      -- the neighbours of `x` are in its own queue
      have hmid := (h.level i).links
      rw [hc] at hmid
      obtain ⟨hprev, hnext⟩ := hmid.mid
      refine (h.level j).congr fun y hy => ?_
      have hyne := h.ne_nil hy
      have hp : y ≠ (s.arena x).prev := by
        rintro rfl
        rw [hprev] at hy hyne
        rcases getLastD_mem_or kNil as with hm | rfl
        · exact h.partition.not_mem (i := i) (by rw [hc]; exact List.mem_append_left _ hm) hj hy
        · exact hyne rfl
      have hn : y ≠ (s.arena x).next := by
        rintro rfl
        rw [hnext] at hy hyne
        rcases headD_mem_or kNil bs with hm | rfl
        · exact h.partition.not_mem (i := i)
            (by rw [hc]; exact List.mem_append_right _ (List.mem_cons_of_mem _ hm)) hj hy
        · exact hyne rfl
      show s.joined x y = s.arena y
      rw [joined_eq hyne, if_neg hp, if_neg hn]
  · exact { h.cursors with split := fun j hj => h.cursors.split j (update_ne_nil hne hj) }
  · rw [show (s.unlink i x).index = (s.index.erase (s.arena x).id).2 from rfl, FlatHashMap.find_erase] at he
    split_ifs at he with hid
    have hk := h.entry he
    have hcell : e.nodeIdx ≠ x := fun e' => hid (by rw [← hk.id, e'])
    refine ⟨hk.nonneg, ?_, (joined_id (h.ne_nil hk.mem)).trans hk.id, hk.side⟩
    have hm := hk.mem
    rcases eq_or_ne e.levelIdx.toNat i with hlvl | hlvl
    · rw [hlvl, update_self]
      rw [hlvl, hc] at hm
      simpa [hcell] using hm
    · rwa [update_of_ne hlvl]
  · rw [h.unopened hb] at hi
    simp at hi

theorem Tracked.unlink (t : Tracked s c) (h : Represents s c) {as bs : List ℕ} (hc : c i = as ++ x :: bs) :
    Tracked (s.unlink i x) (update c i (as ++ bs)) where
  find := by
    intro j y hy
    have hx : x ∈ c i := by simp [hc]
    have hnd := h.partition.nodup i
    have hmem : y ∈ c j ∧ y ≠ x := by
      rcases eq_or_ne j i with rfl | hj
      · rw [update_self] at hy
        rw [hc] at hnd ⊢
        refine ⟨by simp only [List.mem_append, List.mem_cons] at hy ⊢; tauto, fun e => ?_⟩
        exact (List.nodup_cons.mp (List.nodup_middle.mp hnd)).1 (e ▸ hy)
      · rw [update_of_ne hj] at hy
        exact ⟨hy, fun e => h.partition.not_mem hx hj (e ▸ hy)⟩
    obtain ⟨e, he, hn⟩ := t.find hmem.1
    refine ⟨e, ?_, hn⟩
    show (s.index.erase (s.arena x).id).2.find (s.joined x y).id = some e
    rw [joined_id (h.ne_nil hmem.1), FlatHashMap.find_erase, if_neg, he]
    exact fun hid => hmem.2 (t.cell_inj hmem.1 hx hid)
  size := by
    obtain ⟨e, he, -⟩ := t.find (i := i) (x := x) (by simp [hc])
    have hsome : (s.index.find (s.arena x).id).isSome := by rw [he]; rfl
    have hpos := FlatHashMap.size_pos_of_find hsome
    have := t.size
    show (s.index.erase (s.arena x).id).2.size + (x :: s.freeList).length = s.arenaBump
    rw [FlatHashMap.size_erase, if_pos hsome, List.length_cons]
    omega

/-! ### The orders afterwards -/

/-- What neither changes: the arena's size, the price axis and the cursors. -/
structure Frame (s s' : OrderBookV2) : Prop where
  /-- `arena_capacity_`. -/
  capacity : s'.arenaCapacity = s.arenaCapacity
  /-- `arena_bump_`. -/
  bump : s'.arenaBump = s.arenaBump
  /-- `base_`. -/
  base : s'.base = s.base
  /-- `have_base_`. -/
  haveBase : s'.haveBase = s.haveBase
  /-- `initial_window_`. -/
  window : s'.initialWindow = s.initialWindow
  /-- The number of levels. -/
  length : s'.levels.length = s.levels.length

theorem Frame.refl (s : OrderBookV2) : Frame s s := ⟨rfl, rfl, rfl, rfl, rfl, rfl⟩

theorem Frame.trans {s' s'' : OrderBookV2} (h : Frame s s') (h' : Frame s' s'') : Frame s s'' :=
  ⟨h'.capacity.trans h.capacity, h'.bump.trans h.bump, h'.base.trans h.base, h'.haveBase.trans h.haveBase,
    h'.window.trans h.window, h'.length.trans h.length⟩

theorem frame_debit (d : Quantity) : Frame s (s.debit i x d) := ⟨rfl, rfl, rfl, rfl, rfl, List.length_set⟩

theorem frame_unlink : Frame s (s.unlink i x) := ⟨rfl, rfl, rfl, rfl, rfl, List.length_set⟩

/-- The order of a cell with less quantity. -/
def less (o : Order ℤ OrderId) (d : ℕ) : Order ℤ OrderId := { o with qty := o.qty - d }

/-- The other levels do not see a cell that loses quantity; its own level sees only that. -/
theorem queue_debit (h : Represents s c) {as bs : List ℕ} (hc : c i = as ++ x :: bs) {d : Quantity}
    (hd : d ≤ (s.arena x).qty) :
    (s.debit i x d).queue c = update (s.queue c) i
      (as.map (s.orderAt i) ++ less (s.orderAt i x) d.toNat :: bs.map (s.orderAt i)) := by
  have hx : x ∈ c i := by simp [hc]
  have hsame : ∀ j y, y ≠ x → (s.debit i x d).orderAt j y = s.orderAt j y := by
    intro j y hy
    rw [orderAt, debit_arena, update_of_ne hy]
    rfl
  funext j
  rcases eq_or_ne j i with rfl | hj
  · have hnd := h.partition.nodup j
    rw [hc] at hnd
    have hdis := List.nodup_append.mp hnd
    have hxb := (List.nodup_cons.mp hdis.2.1).1
    have hself : (s.debit j x d).orderAt j x = less (s.orderAt j x) d.toNat := by
      rw [orderAt, debit_arena, update_self, less, orderAt, UInt64.toNat_sub_of_le _ _ hd]
      rfl
    rw [update_self, queue, hc, List.map_append, List.map_cons, hself,
      List.map_congr_left fun y hy => hsame j y fun e => hdis.2.2 y hy x (by simp) e,
      List.map_congr_left fun y hy => hsame j y (ne_of_mem_of_not_mem hy hxb)]
  · rw [update_of_ne hj, queue, queue]
    exact List.map_congr_left fun y hy => hsame j y (ne_of_mem_of_not_mem hy (h.partition.not_mem hx hj))

/-- A cell that leaves takes its order along. -/
theorem queue_unlink (h : Represents s c) {as bs : List ℕ} (hc : c i = as ++ x :: bs) :
    (s.unlink i x).queue (update c i (as ++ bs)) =
      update (s.queue c) i (as.map (s.orderAt i) ++ bs.map (s.orderAt i)) := by
  have hsame : ∀ j y, y ∈ c j → (s.unlink i x).orderAt j y = s.orderAt j y := by
    intro j y hy
    show (⟨(s.joined x y).id, _, (s.joined x y).qty.toNat⟩ : Order ℤ OrderId) = _
    rw [joined_id (h.ne_nil hy), joined_qty (h.ne_nil hy)]
    rfl
  funext j
  rcases eq_or_ne j i with rfl | hj
  · rw [update_self, queue, update_self, ← List.map_append]
    refine List.map_congr_left fun y hy => hsame j y ?_
    rw [hc]
    simp only [List.mem_append, List.mem_cons] at hy ⊢
    tauto
  · rw [update_of_ne hj, queue, update_of_ne hj, queue]
    exact List.map_congr_left fun y hy => hsame j y hy

end MatchingEngine
