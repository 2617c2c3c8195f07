import MatchingEngine.Core.Reference

/-!
# Laws of the reference book

Where the orders of a book come from: each was there before, perhaps with more quantity, or
is the incoming one (`mem_side_addWith`). And when the two fill-or-kill tests agree: on a
book whose sides are sorted and whose quantities sum up in 64 bits (`addWith_wrapping`).
-/

namespace MatchingEngine

open Foundation

variable {b : Book} {req : OrderRequest} {side : Side} {o : Order ℤ OrderId}

/-! ### Sides -/

theorem withSide_side (b : Book) (side : Side) : b.withSide side (b.side side) = b := by cases side <;> rfl

@[simp] theorem side_withSide (b : Book) (side : Side) (os : List (Order ℤ OrderId)) :
    (b.withSide side os).side side = os := by cases side <;> rfl

@[simp] theorem withSide_withSide (b : Book) (side : Side) (os os' : List (Order ℤ OrderId)) :
    (b.withSide side os).withSide side os' = b.withSide side os' := by cases side <;> rfl

theorem mem_orders_iff : o ∈ b.orders ↔ ∃ side, o ∈ b.side side := by
  rw [Book.orders, List.mem_append]
  constructor
  · rintro (h | h)
    · exact ⟨.buy, h⟩
    · exact ⟨.sell, h⟩
  · rintro ⟨side, h⟩
    cases side with
    | buy => exact Or.inl h
    | sell => exact Or.inr h

theorem mem_side_orders (ho : o ∈ b.side side) : o ∈ b.orders := mem_orders_iff.mpr ⟨side, ho⟩

/-- One side is replaced, and the other one stays. -/
theorem side_withSide_eq (b : Book) (side side' : Side) (os : List (Order ℤ OrderId)) :
    (b.withSide side os).side side' = if side' = side then os else b.side side' := by
  cases side <;> cases side' <;> rfl

/-- Both sides together, in either order. -/
theorem totalQty_side_le (b : Book) (side : Side) : totalQty (b.side side) ≤ totalQty b.orders := by
  rw [Book.orders, totalQty_append]
  cases side with
  | buy => exact Nat.le_add_right _ _
  | sell => exact Nat.le_add_left _ _

/-! ### Where orders come from -/

/-- An order that was there before, perhaps with another quantity. -/
def Book.HasAt (b : Book) (side : Side) (o : Order ℤ OrderId) : Prop :=
  ∃ o' ∈ b.side side, o'.id = o.id ∧ o'.price = o.price

theorem Book.hasAt_of_mem (ho : o ∈ b.side side) : b.HasAt side o := ⟨o, ho, rfl, rfl⟩

/-- What is left on a side after an order took from it was there before. -/
theorem mem_side_taken (ho : o ∈ (b.taken req).side side) : b.HasAt side o := by
  rw [Book.taken, side_withSide_eq] at ho
  split_ifs at ho with hs
  · have hsuf := fill_rest_suffix (fun o => (o.id, o.price)) (fun _ _ => rfl) req.accepts req.qty.toNat
      (b.side req.side.opposite)
    obtain ⟨o', ho', he⟩ := List.mem_map.mp (hsuf.subset (List.mem_map_of_mem ho))
    rw [Prod.mk.injEq] at he
    exact ⟨o', hs ▸ ho', he⟩
  · exact Book.hasAt_of_mem ho

/-- The ids that rest after a taker rested before it. -/
theorem ids_taken_subset (b : Book) (req : OrderRequest) : (b.taken req).ids ⊆ b.ids := by
  intro id hid
  obtain ⟨o, ho, rfl⟩ := List.mem_map.mp hid
  obtain ⟨side, ho⟩ := mem_orders_iff.mp ho
  obtain ⟨o', ho', he, -⟩ := mem_side_taken ho
  rw [← he]
  exact List.mem_map_of_mem (mem_side_orders ho')

/-- An order that joins a book is the one new order in it. -/
theorem mem_side_join {qty : ℕ} :
    o ∈ (b.join req qty).side side ↔ o ∈ b.side side ∨ (side = req.side ∧ o = req.resting qty) := by
  rw [Book.join, side_withSide_eq]
  split_ifs with hs
  · rw [hs, (enqueue_perm _ _ _).mem_iff, List.mem_cons, or_comm]
    simp
  · simp [hs]

theorem mem_side_cancel {id : OrderId} : o ∈ (b.cancel id).2.side side ↔ o ∈ b.side side ∧ o.id ≠ id := by
  cases side <;> simp [Book.cancel, Book.side, remove]

/-- Reducing an order keeps the others, and perhaps the order itself with less quantity. -/
theorem mem_side_reduce {id : OrderId} {delta : Quantity} (ho : o ∈ (b.reduce id delta).2.side side) :
    b.HasAt side o := by
  have hmem : ∀ os : List (Order ℤ OrderId), o ∈ reduceBy id delta.toNat os →
      ∃ o' ∈ os, o'.id = o.id ∧ o'.price = o.price := by
    intro os hos
    obtain ⟨o', ho', he⟩ := List.mem_filterMap.mp hos
    refine ⟨o', ho', ?_⟩
    split_ifs at he with hid hq
    · rw [← Option.some.inj he]
      exact ⟨rfl, rfl⟩
    · rw [Option.some.inj he]
      exact ⟨rfl, rfl⟩
  cases side with
  | buy => exact hmem b.bids ho
  | sell => exact hmem b.asks ho

/-- **The orders after an `add`** were there before, or are the incoming one on its own side. -/
theorem mem_side_addWith {covers : Book → OrderRequest → Bool} (ho : o ∈ (b.addWith covers req).2.side side) :
    b.HasAt side o ∨ (req.type ≠ .cancel ∧ side = req.side ∧ o.id = req.id ∧ o.price = req.price) := by
  have hsame : o ∈ b.side side → b.HasAt side o := Book.hasAt_of_mem
  rw [Book.addWith] at ho
  cases htype : req.type with
  | cancel =>
    rw [htype] at ho
    exact Or.inl (hsame (mem_side_cancel.mp ho).1)
  | postOnly =>
    rw [htype] at ho
    dsimp only at ho
    split_ifs at ho
    · exact Or.inl (hsame ho)
    · rcases mem_side_join.mp ho with h | ⟨hs, rfl⟩
      · exact Or.inl (hsame h)
      · exact Or.inr ⟨by decide, hs, rfl, rfl⟩
  | limit =>
    rw [htype] at ho
    dsimp only at ho
    split_ifs at ho
    · rcases mem_side_join.mp ho with h | ⟨hs, rfl⟩
      · exact Or.inl (mem_side_taken h)
      · exact Or.inr ⟨by decide, hs, rfl, rfl⟩
    · exact Or.inl (mem_side_taken ho)
  | fok =>
    rw [htype] at ho
    dsimp only at ho
    split_ifs at ho
    · exact Or.inl (mem_side_taken ho)
    · exact Or.inl (hsame ho)
  | market =>
    rw [htype] at ho
    exact Or.inl (mem_side_taken ho)
  | ioc =>
    rw [htype] at ho
    exact Or.inl (mem_side_taken ho)

/-- An order that does not cross takes nothing. -/
theorem taken_of_not_crosses (h : b.crosses req = false) : b.taken req = b := by
  have hstop : b.take req = ⟨[], req.qty.toNat, b.side req.side.opposite⟩ := by
    apply fill_stop
    intro o ho
    rw [Book.crosses, Book.best, Option.mem_def.mp ho] at h
    exact h
  rw [Book.taken, hstop, withSide_side]

/-- The trades and the book before an order would rest. -/
def Book.beforeRest (b : Book) (req : OrderRequest) : List Trade × Book :=
  if req.type = .limit then (b.trades req, b.taken req) else ([], b)

theorem mem_side_beforeRest (ho : o ∈ (b.beforeRest req).2.side side) : b.HasAt side o := by
  rw [Book.beforeRest] at ho
  split_ifs at ho
  · exact mem_side_taken ho
  · exact Book.hasAt_of_mem ho

/-! ### Fill-or-kill -/

/-- A taker without quantity takes nothing. -/
theorem taken_zero (b : Book) (hq : req.qty.toNat = 0) : b.trades req = [] ∧ b.taken req = b := by
  rw [Book.trades, Book.taken, Book.take, hq, fill_zero]
  exact ⟨rfl, withSide_side b _⟩

/-- For an order without quantity the answer of the fill-or-kill test does not matter. -/
theorem taken_or_not (b : Book) (hq : req.qty.toNat = 0) (covered : Bool) :
    (if covered then (b.trades req, b.taken req) else ([], b)) = ([], b) := by
  obtain ⟨h1, h2⟩ := taken_zero b hq
  rw [h1, h2, ite_self]

/-- Each side has its best orders first. -/
def Book.Sorted (b : Book) : Prop := ∀ side, (b.side side).Pairwise fun x y => side.ahead y.price x.price = false

/-- The prices that an order with a limit accepts. -/
theorem accepts_buy (htype : req.type ≠ .market) (hside : req.side = .buy) (p : ℤ) :
    req.accepts p = decide (p ≤ req.price) := by
  simp [OrderRequest.accepts, htype, hside]

theorem accepts_sell (htype : req.type ≠ .market) (hside : req.side = .sell) (p : ℤ) :
    req.accepts p = decide (req.price ≤ p) := by
  simp [OrderRequest.accepts, htype, hside]

/-- An order that accepts a price accepts every better one. -/
theorem accepts_of_ahead {p q : ℤ} (hp : req.side.opposite.ahead q p = false) (hq : req.accepts q = true) :
    req.accepts p = true := by
  rw [OrderRequest.accepts, Bool.or_eq_true] at hq ⊢
  rcases hq with hq | hq
  · exact Or.inl hq
  · right
    cases hside : req.side with
    | buy =>
      rw [hside] at hp hq
      have hp : ¬ q < p := of_decide_eq_false hp
      have hq : q ≤ req.price := of_decide_eq_true hq
      exact decide_eq_true (by omega)
    | sell =>
      rw [hside] at hp hq
      have hp : ¬ p < q := of_decide_eq_false hp
      have hq : req.price ≤ q := of_decide_eq_true hq
      exact decide_eq_true (by omega)

theorem length_orders_withSide (b : Book) (side : Side) (os : List (Order ℤ OrderId)) :
    (b.withSide side os).orders.length + (b.side side).length = b.orders.length + os.length := by
  cases side <;> simp [Book.orders, Book.withSide, Book.side] <;> omega

theorem length_join (b : Book) (req : OrderRequest) (qty : ℕ) : (b.join req qty).orders.length = b.orders.length + 1 := by
  have hlen := length_orders_withSide b req.side (enqueue req.side.ahead (req.resting qty) (b.side req.side))
  have henq := (enqueue_perm req.side.ahead (req.resting qty) (b.side req.side)).length_eq
  rw [List.length_cons] at henq
  rw [Book.join]
  omega

/-- An order that trades and keeps shares has used up another one. -/
theorem length_orders_taken_lt (hcross : b.crosses req = true) (hleft : 0 < (b.take req).left) :
    (b.taken req).orders.length < b.orders.length := by
  have hlen := length_orders_withSide b req.side.opposite (b.take req).rest
  rw [Book.crosses, Book.best] at hcross
  cases hos : b.side req.side.opposite with
  | nil =>
    rw [hos] at hcross
    cases hcross
  | cons o os =>
    rw [hos] at hcross hlen
    rw [Book.take, hos] at hleft
    have := length_fill_rest_lt hcross hleft
    rw [Book.taken]
    rw [Book.take, hos] at hlen ⊢
    omega

/-- On a sorted book the orders that are accepted come first. -/
theorem Book.Sorted.takeWhile_accepts (hb : b.Sorted) (req : OrderRequest) :
    ((b.side req.side.opposite).takeWhile fun o => req.accepts o.price) =
      (b.side req.side.opposite).filter fun o => req.accepts o.price :=
  takeWhile_eq_filter ((hb req.side.opposite).imp fun hxy hy => accepts_of_ahead hxy hy)

/-- A taker is left with something if and only if it is not covered. -/
theorem Book.Sorted.left_eq_zero_iff (hb : b.Sorted) : (b.take req).left = 0 ↔ b.covers req = true := by
  rw [Book.covers, decide_eq_true_iff]
  constructor
  · intro hz
    have := le_fill_left_add req.accepts req.qty.toNat (b.side req.side.opposite)
    rw [← Book.take, hz] at this
    omega
  · intro hle
    apply fill_left_eq_zero
    rw [hb.takeWhile_accepts]
    exact hle

/-- **On a sorted book whose quantities fit in 64 bits, the two tests agree**, for an order that has
a quantity. -/
theorem coversWrapping_eq (hsorted : b.Sorted) (hfit : totalQty b.orders < 2 ^ 64) (hq : 0 < req.qty.toNat) :
    b.coversWrapping req = b.covers req := by
  have hsum := totalQty_side_le b req.side.opposite
  rw [Book.coversWrapping, Book.covers, ← hsorted.takeWhile_accepts]
  by_cases hhead : ∃ o ∈ (b.side req.side.opposite).head?, req.accepts o.price = true
  · obtain ⟨o, ho, hok⟩ := hhead
    have hne : b.side req.side.opposite ≠ [] := by
      intro he
      rw [he] at ho
      cases ho
    apply Bool.eq_iff_iff.mpr
    rw [coversWrapped_iff (by omega) hne, Nat.zero_add, decide_eq_true_iff]
    intro o' ho'
    rw [← Option.mem_unique ho ho']
    exact hok
  · have hstop : ∀ o ∈ (b.side req.side.opposite).head?, req.accepts o.price = false := fun o ho =>
      Bool.eq_false_iff.mpr fun hok => hhead ⟨o, ho, hok⟩
    rw [coversWrapped_stop hstop, eq_comm, decide_eq_false_iff_not]
    cases hos : b.side req.side.opposite with
    | nil =>
      rw [List.takeWhile_nil, totalQty_nil]
      omega
    | cons o os =>
      rw [hos] at hstop
      rw [List.takeWhile_cons, hstop o rfl, if_neg (by decide), totalQty_nil]
      omega

/-- **`add`** is the same for either test, on such a book. -/
theorem addWith_wrapping (hsorted : b.Sorted) (hfit : totalQty b.orders < 2 ^ 64) :
    b.addWith Book.coversWrapping req = b.add req := by
  rw [Book.add, Book.addWith, Book.addWith]
  rcases Nat.eq_zero_or_pos req.qty.toNat with hq | hq
  · rw [taken_or_not b hq, taken_or_not b hq]
  · rw [coversWrapping_eq hsorted hfit hq]

end MatchingEngine
