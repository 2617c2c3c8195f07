import MatchingEngine.Core.Refinement

/-!
# Ids that are used again

Nothing stops a caller from adding an order under an id that still rests. The index then names
the new order only: the old one keeps its place, and may still be filled, but `cancel` and
`reduce` go to the new one; and once any order under the id has been filled completely, the
index does not know the id any more.

`MarkedBook` is the reference book for such calls. An order carries a mark, which is its id and
whether the index finds the order under it. `OrderBookV2.marked` is the marked book that a state
stands for. What leaves the book, and what matching takes from it, is followed here.
-/

namespace MatchingEngine

open Foundation Function OrderBookV2

/-- An id, and whether the index finds the order under it. -/
structure Mark where
  /-- The id. -/
  id : OrderId
  /-- The index finds the order. -/
  known : Bool
  deriving DecidableEq, Repr

/-- The index does not know the ids any more. -/
def Mark.forget (ids : List OrderId) (m : Mark) : Mark := ⟨m.id, m.known && m.id ∉ ids⟩

/-- The orders of each side with their marks, best first. -/
abbrev MarkedBook := Side → List (Order ℤ Mark)

namespace MarkedBook

/-- The orders without the marks. -/
def book (b : MarkedBook) : Book := ⟨(b .buy).map (Order.rename Mark.id), (b .sell).map (Order.rename Mark.id)⟩

/-- How many orders rest. -/
def size (b : MarkedBook) : ℕ := (b .buy).length + (b .sell).length

/-- The index knows the id. -/
def knows (b : MarkedBook) (id : OrderId) : Bool := ⟨id, true⟩ ∈ (b .buy ++ b .sell).map (·.id)

/-- The index forgets some ids. -/
def forget (ids : List OrderId) (b : MarkedBook) : MarkedBook := fun side => (b side).map (Order.rename (Mark.forget ids))

/-- `cancel`. -/
def cancel (b : MarkedBook) (id : OrderId) : Bool × MarkedBook := (b.knows id, fun side => remove ⟨id, true⟩ (b side))

/-- `reduce`. -/
def reduce (b : MarkedBook) (id : OrderId) (delta : Quantity) : Bool × MarkedBook :=
  (b.knows id, fun side => reduceBy ⟨id, true⟩ delta.toNat (b side))

/-- What the incoming order leaves of the other side. -/
def left (b : MarkedBook) (req : OrderRequest) : List (Order ℤ Mark) :=
  (fill req.accepts req.qty.toNat (b req.side.opposite)).rest

/-- The ids of the orders that the incoming order uses up. -/
def usedUp (b : MarkedBook) (req : OrderRequest) : List OrderId :=
  ((b req.side.opposite).take ((b req.side.opposite).length - (b.left req).length)).map (·.id.id)

/-- The book after the incoming order has taken what it can. -/
def taken (b : MarkedBook) (req : OrderRequest) : MarkedBook :=
  forget (b.usedUp req) fun side => if side = req.side then b side else b.left req

/-- An order comes to rest. -/
def join (b : MarkedBook) (req : OrderRequest) (qty : ℕ) : MarkedBook := fun side =>
  if side = req.side then enqueue side.ahead ⟨⟨req.id, true⟩, req.price, qty⟩ (b.forget [req.id] side)
  else b.forget [req.id] side

theorem side_book (b : MarkedBook) (side : Side) : b.book.side side = (b side).map (Order.rename Mark.id) := by
  cases side <;> rfl

/-- Two marked books are the same if their orders are, and their marks. -/
theorem ext_book {b b' : MarkedBook} (hbook : b.book = b'.book)
    (hmarks : ∀ side, (b side).map (·.id) = (b' side).map (·.id)) : b = b' := by
  funext side
  refine eq_of_map_rename (f := Mark.id) ?_ (hmarks side)
  rw [← side_book, ← side_book, hbook]

theorem forget_marks (b : MarkedBook) (ids : List OrderId) (side : Side) :
    (b.forget ids side).map (·.id) = ((b side).map (·.id)).map (Mark.forget ids) := by
  rw [forget, List.map_map, List.map_map]
  rfl

theorem forget_book (b : MarkedBook) (ids : List OrderId) : (b.forget ids).book = b.book := by
  have hside : ∀ side, (b.forget ids side).map (Order.rename Mark.id) = (b side).map (Order.rename Mark.id) := by
    intro side
    rw [forget, List.map_map]
    rfl
  exact Book.ext (hside .buy) (hside .sell)

theorem left_book (b : MarkedBook) (req : OrderRequest) :
    (b.left req).map (Order.rename Mark.id) = (b.book.take req).rest := by
  rw [Book.take, side_book, fill_rename]
  rfl

/-- The orders that matching leaves do not depend on the marks. -/
theorem taken_book (b : MarkedBook) (req : OrderRequest) : (b.taken req).book = b.book.taken req := by
  rw [taken, forget_book, Book.taken, ← left_book]
  cases req.side with
  | buy => simp [book, Book.withSide, Side.opposite]
  | sell => simp [book, Book.withSide, Side.opposite]

theorem length_left (b : MarkedBook) (req : OrderRequest) :
    (b.left req).length = ((b.book.taken req).side req.side.opposite).length := by
  rw [Book.taken, side_withSide, ← left_book, List.length_map]

/-- The orders that are used up come before those that are left. -/
theorem left_of_row {b : MarkedBook} {req : OrderRequest} {gone rest : List Mark}
    (hrow : gone ++ rest = (b req.side.opposite).map (·.id)) (hlen : rest.length = (b.left req).length) :
    b.usedUp req = gone.map Mark.id ∧ (b.left req).map (·.id) = rest := by
  have hsuffix : (b.left req).map (·.id) <:+ (b req.side.opposite).map (·.id) :=
    fill_rest_suffix (·.id) (fun _ _ => rfl) _ _ _
  rw [← hrow] at hsuffix
  refine ⟨?_, ?_⟩
  · have hcount : (b req.side.opposite).length - (b.left req).length = gone.length := by
      have hsum := congrArg List.length hrow
      rw [List.length_append, List.length_map] at hsum
      omega
    have hids : ∀ n, ((b req.side.opposite).take n).map (·.id.id) =
        (((b req.side.opposite).map (·.id)).take n).map Mark.id := by
      intro n
      rw [← List.map_take, List.map_map]
      rfl
    rw [usedUp, hcount, hids, ← hrow, List.take_left]
  · have hle : ((b.left req).map (·.id)).length = rest.length := by rw [List.length_map, hlen]
    exact (List.suffix_of_suffix_length_le hsuffix (List.suffix_append gone rest) hle.le).eq_of_length hle

theorem mem_knows {b : MarkedBook} {id : OrderId} : b.knows id = true ↔ ∃ side, ⟨id, true⟩ ∈ (b side).map (·.id) := by
  rw [knows, decide_eq_true_iff, List.map_append, List.mem_append]
  constructor
  · rintro (h | h)
    · exact ⟨.buy, h⟩
    · exact ⟨.sell, h⟩
  · rintro ⟨side, h⟩
    cases side with
    | buy => exact Or.inl h
    | sell => exact Or.inr h

end MarkedBook

variable {s : OrderBookV2} {c : Layout} {i x : ℕ} {id : OrderId} {e : IndexEntry} {req : OrderRequest}

/-! ### The marked book of a state -/

namespace OrderBookV2

/-- The index finds the cell under its id. -/
def known (s : OrderBookV2) (x : ℕ) : Bool := (s.index.find (s.arena x).id).any (·.nodeIdx = x)

/-- The mark of a cell. -/
def markOf (s : OrderBookV2) (x : ℕ) : Mark := ⟨(s.arena x).id, s.known x⟩

/-- An order and its mark, from the level and the cell it is in. -/
def markedAt (s : OrderBookV2) (i x : ℕ) : Order ℤ Mark := ⟨s.markOf x, s.base + i, (s.arena x).qty.toNat⟩

/-- The orders of a level. -/
def markedQueue (s : OrderBookV2) (c : Layout) (i : ℕ) : List (Order ℤ Mark) := (c i).map (s.markedAt i)

/-- The marked book that a layout stands for. -/
def markedOf (s : OrderBookV2) (c : Layout) : MarkedBook := s.sides (s.markedQueue c)

/-- **The resting orders with their marks**, as they are found by walking the lists. -/
def marked (s : OrderBookV2) : MarkedBook := s.markedOf s.levelNodes

end OrderBookV2

theorem Represents.marked_eq (h : Represents s c) : s.marked = s.markedOf c := by
  rw [OrderBookV2.marked, h.layout]

/-- What is read of the cells one by one. -/
theorem sides_map {α β : Type*} (f : α → β) (q : ℕ → List α) (side : Side) :
    s.sides (fun j => (q j).map f) side = (s.sides q side).map f :=
  sides_hom (List.map f) rfl (fun _ _ => List.map_append) side

theorem markedOf_book (s : OrderBookV2) (c : Layout) : (s.markedOf c).book = s.bookOf c := by
  have hq : (fun j => (s.markedQueue c j).map (Order.rename Mark.id)) = s.queue c := by
    funext j
    rw [markedQueue, List.map_map]
    rfl
  have hside : ∀ side, (s.markedOf c side).map (Order.rename Mark.id) = s.sides (s.queue c) side := by
    intro side
    rw [← hq, sides_map]
    rfl
  exact Book.ext (hside .buy) (hside .sell)

theorem markedOf_marks (s : OrderBookV2) (c : Layout) (side : Side) :
    (s.markedOf c side).map (·.id) = (s.sides c side).map s.markOf := by
  have hq : (fun j => (s.markedQueue c j).map (·.id)) = fun j => (c j).map s.markOf := by
    funext j
    rw [markedQueue, List.map_map]
    rfl
  rw [markedOf, ← sides_map, hq, sides_map]

theorem size_markedOf (s : OrderBookV2) (c : Layout) : (s.markedOf c).size = (s.bookOf c).orders.length := by
  rw [← markedOf_book, Book.orders, List.length_append, MarkedBook.book, List.length_map, List.length_map]
  rfl

@[simp] theorem markedQueue_eq_nil : s.markedQueue c i = [] ↔ c i = [] := by simp [markedQueue]

theorem price_of_mem_markedQueue {o : Order ℤ Mark} (ho : o ∈ s.markedQueue c i) : o.price = s.base + i := by
  obtain ⟨x, -, rfl⟩ := List.mem_map.mp ho
  rfl

/-- What a side shows is held by a level. -/
theorem exists_of_mem_sides {α : Type*} {q : ℕ → List α} {side : Side} {a : α} (ha : a ∈ s.sides q side) :
    ∃ j, a ∈ q j := by
  cases side with
  | buy =>
    obtain ⟨j, -, hj⟩ := mem_down.mp ha
    exact ⟨j, hj⟩
  | sell =>
    obtain ⟨j, -, -, hj⟩ := mem_up.mp ha
    exact ⟨j, hj⟩

/-- The cells of the queues are on a side. -/
theorem Represents.mem_sides (h : Represents s c) (hx : x ∈ c i) : ∃ side, x ∈ s.sides c side := by
  have hlt := h.lt_length (List.ne_nil_of_mem hx)
  rcases Nat.lt_or_ge i s.cut with hc | hc
  · exact ⟨.buy, mem_down.mpr ⟨i, hc, hx⟩⟩
  · exact ⟨.sell, mem_up.mpr ⟨i, hc, by omega, hx⟩⟩

theorem Frame.sides {α : Type*} {s' : OrderBookV2} (h : Frame s s') (hcut : s'.cut = s.cut) {q : ℕ → List α} :
    s'.sides q = s.sides q := by
  funext side
  cases side with
  | buy => rw [OrderBookV2.sides, hcut, OrderBookV2.sides]
  | sell => rw [OrderBookV2.sides, hcut, h.length, OrderBookV2.sides]

/-! ### What the index finds -/

/-- **The index finds one cell under an id.** -/
theorem Represents.markOf_iff (h : Represents s c) (he : s.index.find id = some e) :
    s.markOf x = ⟨id, true⟩ ↔ x = e.nodeIdx := by
  rw [markOf, Mark.mk.injEq, known]
  constructor
  · rintro ⟨hid, hk⟩
    rw [hid, he] at hk
    exact (of_decide_eq_true hk).symm
  · rintro rfl
    have hid := (h.entry he).id
    exact ⟨hid, by rw [hid, he]; exact decide_eq_true rfl⟩

/-- **The index knows an id** if and only if it finds an order under it. -/
theorem Represents.knows_eq (h : Represents s c) (id : OrderId) :
    (s.markedOf c).knows id = (s.index.find id).isSome := by
  rw [Bool.eq_iff_iff, MarkedBook.mem_knows]
  constructor
  · rintro ⟨side, hm⟩
    rw [markedOf_marks] at hm
    obtain ⟨x, -, hx⟩ := List.mem_map.mp hm
    rw [markOf, Mark.mk.injEq, known] at hx
    cases he : s.index.find id with
    | some e => rfl
    | none =>
      rw [hx.1, he] at hx
      exact absurd hx.2 Bool.false_ne_true
  · intro hf
    obtain ⟨e, he⟩ := Option.isSome_iff_exists.mp hf
    obtain ⟨side, hx⟩ := h.mem_sides (h.entry he).mem
    refine ⟨side, ?_⟩
    rw [markedOf_marks]
    exact List.mem_map.mpr ⟨_, hx, (h.markOf_iff he).mpr rfl⟩

/-- No order has the mark of an id that the index does not know. -/
theorem markedOf_not_mem (hf : s.index.find id = none) (side : Side) : (⟨id, true⟩ : Mark) ∉ (s.markedOf c side).map (·.id) := by
  intro hm
  rw [markedOf_marks] at hm
  obtain ⟨x, -, hx⟩ := List.mem_map.mp hm
  rw [markOf, Mark.mk.injEq, known] at hx
  rw [hx.1, hf] at hx
  exact absurd hx.2 Bool.false_ne_true

/-! ### Leaving -/

/-- The two states differ in their cursors at most. -/
def Moved (s s' : OrderBookV2) : Prop := s' = { s with bestBidIdx := s'.bestBidIdx, bestAskIdx := s'.bestAskIdx }

theorem Moved.markedQueue {s' : OrderBookV2} (h : Moved s s') (c : Layout) : s'.markedQueue c = s.markedQueue c := by
  rw [h]
  rfl

theorem advance_moved {side : Side} {s' : OrderBookV2} (h : s.advance side = .ok s') : Moved s s' := by
  cases side with
  | buy =>
    obtain ⟨r, -, hr⟩ := bind_eq_ok.mp h
    cases hr
    rfl
  | sell =>
    obtain ⟨r, -, hr⟩ := bind_eq_ok.mp h
    cases hr
    rfl

theorem afterUnlink_moved {s' : OrderBookV2} (h : s.afterUnlink e = .ok s') : Moved s s' := by
  obtain ⟨lvl, -, h⟩ := bind_eq_ok.mp h
  split_ifs at h
  · exact advance_moved (show s.advance .buy = .ok s' from h)
  · exact advance_moved (show s.advance .sell = .ok s' from h)
  · cases h
    rfl
  · cases h
    rfl

/-- **Cursors that show the same orders show the same of everything**: between them there are empty levels only. -/
theorem Moved.sides {α : Type*} {s' : OrderBookV2} (h : Moved s s') (hcut : s.cut ≤ s.levels.length)
    (hcut' : s'.cut ≤ s.levels.length) (hbook : s'.bookOf c = s.bookOf c) {q : ℕ → List α}
    (hq : ∀ j, c j = [] → q j = []) : s'.sides q = s.sides q := by
  have hlen : s'.levels.length = s.levels.length := by rw [h]
  have hqueue : s'.queue c = s.queue c := by
    rw [h]
    rfl
  -- the levels between two cuts that show equally many bids are empty
  have hempty : ∀ {a b : ℕ}, a ≤ b → down (s.queue c) a = down (s.queue c) b → ∀ j, a ≤ j → j < b → q j = [] := by
    intro a b hab he j h1 h2
    obtain ⟨m, rfl⟩ := Nat.exists_eq_add_of_le hab
    rw [down_add] at he
    have hnil : down (fun j => s.queue c (a + j)) m = [] := by
      have := congrArg List.length he
      rw [List.length_append] at this
      exact List.length_eq_zero_iff.mp (by omega)
    refine hq j (queue_eq_nil (s := s) |>.mp (List.eq_nil_iff_forall_not_mem.mpr fun o ho => ?_))
    have hm : o ∈ down (fun j => s.queue c (a + j)) m := mem_down.mpr ⟨j - a, by omega, by
      rwa [Nat.add_sub_cancel' h1]⟩
    rw [hnil] at hm
    cases hm
  have hbids : down (s.queue c) s'.cut = down (s.queue c) s.cut := by
    have := congrArg Book.bids hbook
    rwa [bookOf, bookOf, hqueue] at this
  funext side
  rcases Nat.le_total s'.cut s.cut with hle | hle
  · have hbetween := hempty hle hbids
    cases side with
    | buy => exact (down_skip hle hbetween).symm
    | sell =>
      rw [OrderBookV2.sides, OrderBookV2.sides, hlen]
      exact up_skip hle hcut hbetween
  · have hbetween := hempty hle hbids.symm
    cases side with
    | buy => exact down_skip hle hbetween
    | sell =>
      rw [OrderBookV2.sides, OrderBookV2.sides, hlen]
      exact (up_skip hle hcut' hbetween).symm

/-- The cells that stay keep their marks when the cell that the index names is unlinked. -/
theorem Represents.markedAt_unlink (h : Represents s c) (he : s.index.find id = some e) {j y : ℕ} (hy : y ∈ c j)
    (hne : y ≠ e.nodeIdx) (k : ℕ) : (s.unlink i e.nodeIdx).markedAt k y = s.markedAt k y := by
  have hid := (h.entry he).id
  have hy' := h.ne_nil hy
  have hmark : (s.unlink i e.nodeIdx).markOf y = s.markOf y := by
    show (⟨(s.joined e.nodeIdx y).id, ((s.index.erase (s.arena e.nodeIdx).id).2.find (s.joined e.nodeIdx y).id).any _⟩ : Mark) = _
    rw [joined_id hy', hid, FlatHashMap.find_erase, markOf, known]
    split_ifs with heq
    · rw [heq, he]
      exact congrArg _ (decide_eq_false hne.symm).symm
    · rfl
  show (⟨(s.unlink i e.nodeIdx).markOf y, _, (s.joined e.nodeIdx y).qty.toNat⟩ : Order ℤ Mark) = _
  rw [hmark, joined_qty hy']
  rfl

/-- The cells other than the one that the index names have another mark. -/
theorem Represents.mark_not_mem (h : Represents s c) (he : s.index.find id = some e) {ys : List ℕ}
    (hys : e.nodeIdx ∉ ys) (k : ℕ) : (⟨id, true⟩ : Mark) ∉ (ys.map (s.markedAt k)).map (·.id) := by
  rw [List.map_map]
  intro hm
  obtain ⟨y, hy, hmark⟩ := List.mem_map.mp hm
  exact hys ((h.markOf_iff he).mp hmark ▸ hy)

/-- Where a cell stands in its queue, and that it stands nowhere else. -/
theorem Represents.apart_of_split (h : Represents s c) {as bs : List ℕ} (hc : c i = as ++ x :: bs) :
    x ∉ as ∧ x ∉ bs ∧ ∀ j, j ≠ i → x ∉ c j := by
  have hxm : x ∈ c i := by simp [hc]
  have hnd := h.partition.nodup i
  rw [hc] at hnd
  have hx := (List.nodup_cons.mp (List.nodup_middle.mp hnd)).1
  rw [List.mem_append, not_or] at hx
  exact ⟨hx.1, hx.2, fun j hj => h.partition.not_mem hxm hj⟩

/-- **The cell that the index names is unlinked**: its mark is removed. -/
theorem Represents.markedQueue_unlink (h : Represents s c) (he : s.index.find id = some e) {as bs : List ℕ}
    (hc : c i = as ++ e.nodeIdx :: bs) :
    (s.unlink i e.nodeIdx).markedQueue (update c i (as ++ bs)) = fun j => remove ⟨id, true⟩ (s.markedQueue c j) := by
  obtain ⟨has, hbs, hother⟩ := h.apart_of_split hc
  have hmark : (s.markedAt i e.nodeIdx).id = ⟨id, true⟩ := (h.markOf_iff he).mpr rfl
  funext j
  rcases eq_or_ne j i with rfl | hj
  · have hsame : ∀ y ∈ as ++ bs, (s.unlink j e.nodeIdx).markedAt j y = s.markedAt j y := by
      intro y hy
      refine h.markedAt_unlink he (j := j) ?_ ?_ j
      · rw [hc]
        simp only [List.mem_append, List.mem_cons] at hy ⊢
        tauto
      · rintro rfl
        exact (List.mem_append.mp hy).elim has hbs
    rw [markedQueue, update_self, List.map_congr_left hsame, markedQueue, hc, List.map_append, List.map_append,
      List.map_cons, remove_append, remove_cons, if_pos hmark, remove_of_not_mem (h.mark_not_mem he has j),
      remove_of_not_mem (h.mark_not_mem he hbs j)]
  · rw [markedQueue, update_of_ne hj, markedQueue, remove_of_not_mem (h.mark_not_mem he (hother j hj) j)]
    refine List.map_congr_left fun y hy => h.markedAt_unlink he hy ?_ j
    rintro rfl
    exact hother j hj hy

/-- **The cell that the index names loses quantity**: its mark is reduced. -/
theorem Represents.markedQueue_debit (h : Represents s c) (he : s.index.find id = some e) {as bs : List ℕ}
    (hc : c i = as ++ e.nodeIdx :: bs) {d : Quantity} (hd : d < (s.arena e.nodeIdx).qty) :
    (s.debit i e.nodeIdx d).markedQueue c = fun j => reduceBy ⟨id, true⟩ d.toNat (s.markedQueue c j) := by
  obtain ⟨has, hbs, hother⟩ := h.apart_of_split hc
  have hmark : (s.markedAt i e.nodeIdx).id = ⟨id, true⟩ := (h.markOf_iff he).mpr rfl
  have hd' := UInt64.lt_iff_toNat_lt.mp hd
  have hmarks : ∀ y, (s.debit i e.nodeIdx d).markOf y = s.markOf y := by
    intro y
    rw [markOf, known, debit_id, debit_index]
    rfl
  have hsame : ∀ {j y : ℕ}, y ≠ e.nodeIdx → (s.debit i e.nodeIdx d).markedAt j y = s.markedAt j y := by
    intro j y hy
    rw [markedAt, hmarks, debit_arena, update_of_ne hy]
    rfl
  have hself : (s.debit i e.nodeIdx d).markedAt i e.nodeIdx =
      { s.markedAt i e.nodeIdx with qty := (s.markedAt i e.nodeIdx).qty - d.toNat } := by
    rw [markedAt, hmarks, debit_arena, update_self, markedAt,
      UInt64.toNat_sub_of_le _ _ (UInt64.le_iff_toNat_le.mpr hd'.le)]
    rfl
  funext j
  rcases eq_or_ne j i with rfl | hj
  · have hge : ¬ (s.markedAt j e.nodeIdx).qty ≤ d.toNat := not_le.mpr hd'
    rw [markedQueue, markedQueue, hc, List.map_append, List.map_cons, List.map_append, List.map_cons, hself,
      reduceBy_append, reduceBy_cons, if_pos hmark, if_neg hge, reduceBy_of_not_mem (h.mark_not_mem he has j),
      reduceBy_of_not_mem (h.mark_not_mem he hbs j),
      List.map_congr_left fun y hy => hsame (ne_of_mem_of_not_mem hy has),
      List.map_congr_left fun y hy => hsame (ne_of_mem_of_not_mem hy hbs)]
  · rw [markedQueue, markedQueue, reduceBy_of_not_mem (h.mark_not_mem he (hother j hj) j)]
    exact List.map_congr_left fun y hy => hsame (ne_of_mem_of_not_mem hy (hother j hj))

/-- **A state that a marked book describes**, with the size of its arena and its window. -/
structure Bears (s : OrderBookV2) (b : MarkedBook) (capacity : ℕ) (window : ℤ) : Prop where
  /-- It is one between two calls. -/
  settled : Settled s s.levelNodes
  /-- The book is the one of the state. -/
  marked : s.marked = b
  /-- `arena_capacity_`. -/
  capacity : s.arenaCapacity = capacity
  /-- `initial_window_`. -/
  window : s.initialWindow = window

variable {b : MarkedBook} {capacity : ℕ} {window : ℤ}

theorem Settled.bears (h : Settled s c) (hb : s.markedOf c = b) (hcap : s.arenaCapacity = capacity)
    (hw : s.initialWindow = window) : Bears s b capacity window where
  settled := by rwa [h.layout]
  marked := h.marked_eq.trans hb
  capacity := hcap
  window := hw

/-- An id is known if the index has it. -/
theorem Bears.knows_eq (h : Bears s b capacity window) (id : OrderId) : b.knows id = (s.index.find id).isSome := by
  rw [← h.marked]
  exact h.settled.toRepresents.knows_eq id

theorem Bears.book (h : Bears s b capacity window) : s.book = b.book := by
  rw [← h.marked, OrderBookV2.marked, markedOf_book]
  rfl

/-- **`cancel`** removes the mark. -/
theorem Bears.cancel (h : Bears s b capacity window) {id : OrderId} {found : Bool} {s' : OrderBookV2}
    (hr : s.cancel id = .ok (found, s')) : found = (b.cancel id).1 ∧ Bears s' (b.cancel id).2 capacity window := by
  have hs := h.settled
  have hknows := h.knows_eq id
  rw [OrderBookV2.cancel] at hr
  cases he : s.index.find id with
  | none =>
    rw [he] at hr hknows
    cases hr
    refine ⟨hknows.symm, hs, ?_, h.capacity, h.window⟩
    funext side
    rw [← h.marked]
    exact (remove_of_not_mem (markedOf_not_mem he side)).symm
  | some e =>
    rw [he] at hr hknows
    obtain ⟨i, as, bs, hi, hc⟩ := hs.toRepresents.entry_split he
    obtain ⟨t, hrun, ht, hbook, hframe, -⟩ := hs.afterUnlink hi hc (hs.entry he).side
    dsimp only at hr
    rw [hs.toRepresents.unlinkNode he hi hc, ok_bind, hrun, ok_bind] at hr
    cases hr
    refine ⟨hknows.symm, ht.bears ?_ ((frame_unlink.trans hframe).capacity.trans h.capacity)
      ((frame_unlink.trans hframe).window.trans h.window)⟩
    have hmoved := afterUnlink_moved hrun
    have hcut : (s.unlink i e.nodeIdx).cut ≤ (s.unlink i e.nodeIdx).levels.length := by
      rw [frame_unlink.length]
      exact cut_le_length hs.toRepresents hs.toLive
    have hcut' : s'.cut ≤ (s.unlink i e.nodeIdx).levels.length := by
      rw [← hframe.length]
      exact cut_le_length ht.toRepresents ht.toLive
    rw [markedOf, hmoved.markedQueue, hmoved.sides hcut hcut' hbook fun j hj => markedQueue_eq_nil.mpr hj,
      hs.markedQueue_unlink he hc]
    funext side
    rw [MarkedBook.cancel, ← h.marked, OrderBookV2.marked, markedOf, frame_unlink.sides (by rfl)]
    exact sides_hom (remove (⟨id, true⟩ : Mark)) rfl (remove_append _) side

/-- **`reduce`** reduces it. -/
theorem Bears.reduce (h : Bears s b capacity window) {id : OrderId} {delta : Quantity} {found : Bool} {s' : OrderBookV2}
    (hr : s.reduce id delta = .ok (found, s')) :
    found = (b.reduce id delta).1 ∧ Bears s' (b.reduce id delta).2 capacity window := by
  have hs := h.settled
  have hknows := h.knows_eq id
  rw [OrderBookV2.reduce] at hr
  cases he : s.index.find id with
  | none =>
    rw [he] at hr hknows
    cases hr
    refine ⟨hknows.symm, hs, ?_, h.capacity, h.window⟩
    funext side
    rw [← h.marked]
    exact (reduceBy_of_not_mem (markedOf_not_mem he side)).symm
  | some e =>
    rw [he] at hr hknows
    obtain ⟨i, as, bs, hi, hc⟩ := hs.toRepresents.entry_split he
    have hxm := (hs.entry he).mem
    have hx := hs.lt_capacity hxm
    dsimp only at hr
    rw [nodeAt_ok hx, ok_bind] at hr
    split_ifs at hr with hle
    · -- nothing would remain
      obtain ⟨h1, h2⟩ := h.cancel hr
      have hsame : b.reduce id delta = b.cancel id := by
        refine congrArg (Prod.mk _) (funext fun side => reduceBy_eq_remove fun o ho hid => ?_)
        rw [← h.marked] at ho
        obtain ⟨j, hj⟩ := exists_of_mem_sides ho
        obtain ⟨y, -, rfl⟩ := List.mem_map.mp hj
        obtain rfl := (hs.toRepresents.markOf_iff he).mp hid
        exact UInt64.le_iff_toNat_le.mp hle
      rw [hsame]
      exact ⟨h1, h2⟩
    · have hd : delta < (s.arena e.nodeIdx).qty := by
        rw [UInt64.le_iff_toNat_le] at hle
        rw [UInt64.lt_iff_toNat_lt]
        omega
      have hd' : delta ≤ (s.arena e.nodeIdx).qty := UInt64.le_iff_toNat_le.mpr (UInt64.lt_iff_toNat_lt.mp hd).le
      have hlt : i < s.levels.length := hs.lt_length (by rw [hc]; simp)
      have hm : e.nodeIdx ∈ s.levelNodes i := by simp [hc]
      rw [modifyNode_ok hx, ok_bind, hi, modifyLevel_ok (by exact hlt), ok_bind] at hr
      cases hr
      have hset : Settled (s.debit i e.nodeIdx delta) s.levelNodes := ⟨hs.toRepresents.debit hm hd', hs.bid, hs.ask⟩
      refine ⟨hknows.symm, hset.bears ?_ h.capacity h.window⟩
      rw [markedOf, hs.toRepresents.markedQueue_debit he hc hd]
      funext side
      rw [MarkedBook.reduce, ← h.marked, OrderBookV2.marked, markedOf, (frame_debit delta).sides (by rfl)]
      exact sides_hom (reduceBy (⟨id, true⟩ : Mark) delta.toNat) rfl (reduceBy_append _ _) side

/-! ### What matching does to the cells -/

/-- The cells of a side have been used up from the front, in going from `s` to `s'`. -/
structure Eaten (side : Side) (s : OrderBookV2) (c : Layout) (s' : OrderBookV2) (c' : Layout) : Prop where
  /-- The cells that stay keep their ids. -/
  id : ∀ side, ∀ x ∈ s'.sides c' side, (s'.arena x).id = (s.arena x).id
  /-- They are the last ones of the side, -/
  row : s'.sides c' side <:+ s.sides c side
  /-- and all of the other side. -/
  other : s'.sides c' side.opposite = s.sides c side.opposite
  /-- The ids of the cells that are gone have left the index. -/
  gone : ∀ x ∈ s.sides c side, x ∉ s'.sides c' side → s'.index.find (s.arena x).id = none
  /-- The other ids are found as before. -/
  kept : ∀ id, (∀ x ∈ s.sides c side, (s.arena x).id = id → x ∈ s'.sides c' side) →
    s'.index.find id = s.index.find id

/-- Nothing is used up if no cell moves and the ids and the index stay as they are. -/
theorem Eaten.of_sides {side : Side} {s' : OrderBookV2} (hsides : s'.sides c = s.sides c)
    (hid : ∀ x, (s'.arena x).id = (s.arena x).id) (hindex : s'.index = s.index) : Eaten side s c s' c where
  id := fun _ x _ => hid x
  row := by rw [hsides]
  other := by rw [hsides]
  gone := fun x hx hx' => absurd (hsides ▸ hx) hx'
  kept := fun id _ => by rw [hindex]

theorem Eaten.trans {side : Side} {s₁ s₂ : OrderBookV2} {c₁ c₂ : Layout} (h : Eaten side s c s₁ c₁)
    (h' : Eaten side s₁ c₁ s₂ c₂) : Eaten side s c s₂ c₂ where
  id := by
    intro sd x hx
    have hx₁ : x ∈ s₁.sides c₁ sd := by
      by_cases hsd : sd = side
      · rw [hsd] at hx ⊢
        exact h'.row.subset hx
      · obtain rfl : sd = side.opposite := by cases sd <;> cases side <;> simp_all [Side.opposite]
        rwa [h'.other] at hx
    rw [h'.id sd x hx, h.id sd x hx₁]
  row := h'.row.trans h.row
  other := h'.other.trans h.other
  gone := by
    intro x hx hx'
    by_cases hx₁ : x ∈ s₁.sides c₁ side
    · rw [← h.id side x hx₁]
      exact h'.gone x hx₁ hx'
    · -- the id has left the index before, and does not come back
      have hnone := h.gone x hx hx₁
      by_cases hy : ∃ y ∈ s₁.sides c₁ side, (s₁.arena y).id = (s.arena x).id ∧ y ∉ s₂.sides c₂ side
      · obtain ⟨y, hy, hid, hy'⟩ := hy
        rw [← hid]
        exact h'.gone y hy hy'
      · rw [h'.kept _ fun y hy' hid => not_not.mp fun hn => hy ⟨y, hy', hid, hn⟩, hnone]
  kept := by
    intro id hall
    rw [h'.kept id fun x hx hid => hall x (h.row.subset hx) (by rw [← h.id side x hx, hid]),
      h.kept id fun x hx hid => h'.row.subset (hall x hx hid)]

theorem Represents.eaten_refl (h : Represents s c) (side : Side) : Eaten side s c s s.levelNodes := by
  rw [h.layout]
  exact Eaten.of_sides rfl (fun _ => rfl) rfl

/-- **A maker that is filled completely** is the first cell of its side. -/
theorem Represents.eaten_head (h : Represents s c) {side : Side} {k : ℕ} (hk : s.bestIdx side = k) {xs : List ℕ}
    (hc : c k = x :: xs) {d : Quantity} (hd : d ≤ (s.arena x).qty) :
    Eaten side s c ((s.debit k x d).unlink k x) (update c k xs) := by
  have hxm : x ∈ c k := by simp [hc]
  have hlt := h.lt_length (List.ne_nil_of_mem hxm)
  have hr : Represents ((s.debit k x d).unlink k x) (update c k xs) :=
    (h.debit hxm hd).unlink (show c k = [] ++ x :: xs from hc)
  have hframe : Frame s ((s.debit k x d).unlink k x) := (frame_debit d).trans frame_unlink
  have hother : ∀ j, j ≠ k → update c k xs j = c j := fun j hj => update_of_ne hj _ _
  obtain ⟨hbefore, -⟩ := h.sides_update hk hlt (Frame.refl s) rfl (q := c) (fun _ hj => hj) fun _ _ => rfl
  obtain ⟨hafter, hside⟩ := h.sides_update hk hlt hframe rfl (fun _ hj => hj) hother
  rw [hc] at hbefore
  rw [update_self] at hafter
  -- the cell is free now
  have hx : x ∉ ((s.debit k x d).unlink k x).sides (update c k xs) side := by
    intro hm
    obtain ⟨j, hj⟩ := exists_of_mem_sides hm
    exact hr.partition.free_apart List.mem_cons_self hj
  have hindex : ((s.debit k x d).unlink k x).index = (s.index.erase (s.arena x).id).2 := by
    rw [← debit_id d x]
    rfl
  refine ⟨fun sd y hy => ?_, ?_, hside, fun y hy hy' => ?_, fun id hall => ?_⟩
  · obtain ⟨j, hj⟩ := exists_of_mem_sides hy
    rw [← debit_id (s := s) (i := k) (x := x) d y]
    exact joined_id (hr.ne_nil hj)
  · rw [hbefore, hafter]
    exact List.suffix_cons x _
  · rw [hbefore, List.cons_append, ← hafter] at hy
    obtain rfl := (List.mem_cons.mp hy).resolve_right hy'
    rw [hindex, FlatHashMap.find_erase, if_pos rfl]
  · have hne : id ≠ (s.arena x).id := by
      rintro rfl
      exact hx (hall x (by rw [hbefore]; exact List.mem_cons_self) rfl)
    rw [hindex, FlatHashMap.find_erase, if_neg hne]

/-- **The inner loop** uses up cells of one side from the front. -/
theorem Represents.matchLevel_eaten (h : Represents s c) {side : Side} {k : ℕ} (hk : s.bestIdx side = k)
    (hlt : k < s.levels.length) {p : ℤ} {fuel : ℕ} {taker taker' : OrderRequest} {trades trades' : List Trade}
    {s' : OrderBookV2} (hrun : OrderBookV2.matchLevel p k fuel s taker trades = .ok (s', taker', trades')) :
    Eaten side s c s' s'.levelNodes := by
  induction fuel generalizing s c taker trades with
  | zero => cases hrun
  | succ fuel ih =>
    cases hc : c k with
    | nil =>
      rw [h.matchLevel_empty hlt hc] at hrun
      cases hrun
      exact h.eaten_refl side
    | cons x xs =>
      rcases Nat.eq_zero_or_pos taker.qty.toNat with hz | hpos
      · rw [Represents.matchLevel_filled hlt (toNat_eq_zero.mp hz)] at hrun
        cases hrun
        exact h.eaten_refl side
      rw [h.matchLevel_step hc (toNat_pos.mp hpos)] at hrun
      rcases Nat.lt_or_ge taker.qty.toNat (s.arena x).qty.toNat with hless | hge
      · -- the maker keeps a remainder
        obtain ⟨he, hr, -⟩ := h.afterFill_gt hc (UInt64.lt_iff_toNat_lt.mpr hless)
        simp only [he] at hrun
        have hstep : Eaten side s c (s.debit k x taker.qty) c :=
          Eaten.of_sides ((frame_debit _).sides rfl) (debit_id _) rfl
        refine hstep.trans (ih hr ?_ ((frame_debit taker.qty).length.symm ▸ hlt) hrun)
        rw [← hk]
        cases side <;> rfl
      · -- the maker is filled
        obtain ⟨he, hr, -⟩ := h.afterFill_le hc (UInt64.le_iff_toNat_le.mpr hge)
        simp only [he] at hrun
        have hstep := h.eaten_head hk hc (UInt64.le_iff_toNat_le.mpr (Nat.le_refl (s.arena x).qty.toNat))
        have hframe : Frame s ((s.debit k x (s.arena x).qty).unlink k x) := (frame_debit _).trans frame_unlink
        refine hstep.trans (ih hr ?_ (hframe.length.symm ▸ hlt) hrun)
        rw [← hk]
        cases side <;> rfl

/-- A round of the outer loop does so, -/
theorem Round.eaten (h : Settled s c) {taker taker₁ : OrderRequest} {trades ts : List Trade} {k : ℕ} {s₁ s₂ : OrderBookV2}
    {zs : List ℕ} (hr : Round s c taker trades k s₁ s₂ taker₁ ts zs) :
    Eaten taker.side.opposite s c s₂ (update c k zs) := by
  have hl := hr.filled
  have hlt := h.lt_length (h.bestIdx hr.best)
  have hlevel : Eaten taker.side.opposite s c s₁ (update c k zs) := by
    have := h.toRepresents.matchLevel_eaten hr.best hlt hr.run
    rwa [hl.represents.layout] at this
  rcases hr.moved with ⟨-, hs₂⟩ | ⟨-, rfl⟩
  · -- the cursor moves, and the cells stay
    have hmoved := advance_moved hs₂
    have hcut : s₁.cut ≤ s₁.levels.length := by
      rw [cut, hl.frame.2.1, hl.frame.1.length]
      exact cut_le_length h.toRepresents h.toLive
    have hcut₂ : s₂.cut ≤ s₁.levels.length := by
      rw [← hr.frame.length]
      exact cut_le_length hr.settled.toRepresents hr.settled.toLive
    refine hlevel.trans (Eaten.of_sides (hmoved.sides hcut hcut₂ hr.book fun _ hj => hj) (fun x => ?_) ?_)
    · rw [hmoved]
    · rw [hmoved]
  · exact hlevel

/-- **and so does the whole loop.** -/
theorem Settled.matchLoop_eaten (h : Settled s c) {fuel : ℕ} {taker taker' : OrderRequest} {trades trades' : List Trade}
    {s' : OrderBookV2} (hrun : OrderBookV2.matchLoop fuel s taker trades = .ok (s', taker', trades')) :
    Eaten taker.side.opposite s c s' s'.levelNodes := by
  induction fuel generalizing s c taker trades with
  | zero => cases hrun
  | succ fuel ih =>
    obtain ⟨hstop, -⟩ | ⟨k, s₁, s₂, taker₁, ts, zs, hr, hround⟩ := h.round fuel taker trades
    · rw [hstop] at hrun
      cases hrun
      exact h.toRepresents.eaten_refl _
    · rw [hround] at hrun
      have hrest := ih hr.settled hrun
      rw [hr.side] at hrest
      exact (hr.eaten h).trans hrest

/-- No cell is shown twice. -/
theorem Represents.nodup_sides (h : Represents s c) (side : Side) : (s.sides c side).Nodup := by
  have hup : ∀ n i, (up c n i).Nodup := nodup_up h.partition.nodup h.partition.apart
  cases side with
  | buy => exact (down_perm_up c s.cut).nodup_iff.mpr (hup _ _)
  | sell => exact hup _ _

/-- Of the cells that stay, those whose id was used up are not found any more; the marks of the others are as before. -/
theorem Eaten.markOf {side side' : Side} {s' : OrderBookV2} {c' : Layout} (h : Eaten side s c s' c')
    (hnodup : (s.sides c side).Nodup) {gone : List ℕ} (hrow : gone ++ s'.sides c' side = s.sides c side) {y : ℕ}
    (hy : y ∈ s'.sides c' side') : s'.markOf y = (s.markOf y).forget (gone.map fun x => (s.arena x).id) := by
  rw [← hrow] at hnodup
  have hid := h.id side' y hy
  by_cases hgone : (s.arena y).id ∈ gone.map fun x => (s.arena x).id
  · have hnone : s'.index.find (s.arena y).id = none := by
      obtain ⟨x, hx, hxy⟩ := List.mem_map.mp hgone
      rw [← hxy]
      refine h.gone x (by rw [← hrow]; exact List.mem_append_left _ hx) fun hx' => ?_
      exact (List.nodup_append.mp hnodup).2.2 x hx x hx' rfl
    rw [OrderBookV2.markOf, known, hid, hnone, Mark.forget]
    simp only [OrderBookV2.markOf, hgone, not_true, decide_false, Bool.and_false, Option.any_none]
  · have hsame : s'.index.find (s.arena y).id = s.index.find (s.arena y).id := by
      refine h.kept _ fun x hx hxy => ?_
      rw [← hrow] at hx
      refine (List.mem_append.mp hx).resolve_left fun hx => hgone ?_
      rw [← hxy]
      exact List.mem_map_of_mem hx
    rw [OrderBookV2.markOf, known, hid, hsame, Mark.forget]
    simp only [OrderBookV2.markOf, known, hgone, not_false_eq_true, decide_true, Bool.and_true]

/-- **`match`** takes from the other side what the incoming order uses up, and the index forgets it. -/
theorem Bears.match_ (h : Bears s b capacity window) {taker : OrderRequest} {trades ts : List Trade} {s' : OrderBookV2}
    (hr : s.match_ req trades = .ok (s', taker, ts)) : Bears s' (b.taken req) capacity window := by
  have hs := h.settled
  have heaten : Eaten req.side.opposite s s.levelNodes s' s'.levelNodes := hs.matchLoop_eaten hr
  obtain ⟨t, taker', ts', c', hrun, hm⟩ := hs.match_ req trades
  rw [hr] at hrun
  obtain ⟨rfl, -⟩ := Prod.mk.inj (Except.ok.inj hrun)
  have hset : Settled s' s'.levelNodes := by
    have := hm.settled
    rwa [← hm.settled.layout] at this
  have hbook : s'.bookOf s'.levelNodes = b.book.taken req := by
    rw [hm.settled.layout, hm.book, ← h.book]
    rfl
  refine ⟨hset, ?_, hm.frame.capacity.trans h.capacity, hm.frame.window.trans h.window⟩
  have hb : ∀ side, (b side).map (·.id) = (s.sides s.levelNodes side).map s.markOf := by
    intro side
    rw [← h.marked]
    exact markedOf_marks s s.levelNodes side
  -- the cells that are used up, and those that stay
  obtain ⟨gone, hrow⟩ := heaten.row
  have hmarks : gone.map s.markOf ++ (s'.sides s'.levelNodes req.side.opposite).map s.markOf =
      (b req.side.opposite).map (·.id) := by
    rw [← List.map_append, hrow, hb]
  have hlen : ((s'.sides s'.levelNodes req.side.opposite).map s.markOf).length = (b.left req).length := by
    have hshown := congrArg List.length (markedOf_marks s' s'.levelNodes req.side.opposite)
    rw [List.length_map, List.length_map] at hshown
    rw [List.length_map, MarkedBook.length_left, ← hbook, ← markedOf_book, MarkedBook.side_book, List.length_map, hshown]
  obtain ⟨hused, hleft⟩ := MarkedBook.left_of_row hmarks hlen
  rw [List.map_map] at hused
  have hshown : ∀ side, (s'.marked side).map (·.id) =
      ((s'.sides s'.levelNodes side).map s.markOf).map (Mark.forget (b.usedUp req)) := by
    intro side
    rw [List.map_map, hused]
    exact (markedOf_marks s' s'.levelNodes side).trans
      (List.map_congr_left fun y hy => heaten.markOf (hs.nodup_sides _) hrow hy)
  refine MarkedBook.ext_book ?_ fun side => ?_
  · rw [MarkedBook.taken_book, ← hbook, ← markedOf_book]
    rfl
  · rw [hshown, MarkedBook.taken, MarkedBook.forget_marks]
    congr 1
    by_cases hside : side = req.side
    · -- the orders of its own side
      obtain rfl := hside
      have hown : s'.sides s'.levelNodes req.side = s.sides s.levelNodes req.side := by
        have := heaten.other
        rwa [Side.opposite_opposite] at this
      rw [if_pos rfl, hown, hb]
    · -- the orders of the other side
      obtain rfl : side = req.side.opposite := by
        cases hr : req.side <;> cases side <;> simp_all [Side.opposite]
      rw [if_neg hside, hleft]

end MatchingEngine
