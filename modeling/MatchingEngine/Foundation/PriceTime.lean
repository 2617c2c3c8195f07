import Mathlib.Algebra.BigOperators.Group.List.Basic
import Mathlib.Algebra.Ring.Nat
import Mathlib.Data.List.Nodup

/-!
# Price-time priority

A side of an order book, as a list of orders with the best one first and, at one
price, the oldest one first. Nothing here depends on how a program keeps the side.

Three things happen to it. An incoming quantity is filled greedily from the front, as
long as the price is acceptable (`fill`); an order joins behind everything that is not
strictly worse (`enqueue`); and an order is removed or reduced by its id. `fill_append`
lets a program that keeps its orders level by level fill one level after the other, and
`fill_left_add` and `fill_account` say that a fill loses no quantity.

The last part is about the question whether a quantity can be filled completely, for a
program that sums what is there in machine words and compares only at the end of each
price (`coversWrapped`): the answer is never wrongly yes, and it is exact as long as
the sum fits.
-/

namespace MatchingEngine.Foundation

variable {P I : Type*}

/-- A resting order. -/
@[ext] structure Order (P I : Type*) where
  /-- Who it belongs to. -/
  id : I
  /-- Its limit price. -/
  price : P
  /-- What is left of it. -/
  qty : ℕ
  deriving DecidableEq, Repr

/-- One fill of an incoming order, at the price of the resting one. -/
structure Fill (P I : Type*) where
  /-- The resting order. -/
  maker : I
  /-- Its price. -/
  price : P
  /-- The quantity. -/
  qty : ℕ
  deriving DecidableEq, Repr

/-- What filling an incoming quantity leads to. -/
structure Filled (P I : Type*) where
  /-- The fills, in the order they happen. -/
  fills : List (Fill P I)
  /-- What is left of the incoming quantity. -/
  left : ℕ
  /-- The side afterwards. -/
  rest : List (Order P I)

/-! ### Quantities -/

/-- The quantity of some orders. -/
def totalQty (os : List (Order P I)) : ℕ := (os.map (·.qty)).sum

@[simp] theorem totalQty_nil : totalQty ([] : List (Order P I)) = 0 := rfl

@[simp] theorem totalQty_cons (o : Order P I) (os : List (Order P I)) :
    totalQty (o :: os) = o.qty + totalQty os := by simp [totalQty]

@[simp] theorem totalQty_append (as bs : List (Order P I)) :
    totalQty (as ++ bs) = totalQty as + totalQty bs := by simp [totalQty]

section ById

variable [DecidableEq I]

/-- The quantity that rests under an id. -/
def restingOf (id : I) (os : List (Order P I)) : ℕ := totalQty (os.filter (·.id = id))

/-- The quantity that some fills take from an id. -/
def filledOf (id : I) (fs : List (Fill P I)) : ℕ := ((fs.filter (·.maker = id)).map (·.qty)).sum

@[simp] theorem restingOf_nil (id : I) : restingOf id ([] : List (Order P I)) = 0 := rfl

theorem restingOf_cons (id : I) (o : Order P I) (os : List (Order P I)) :
    restingOf id (o :: os) = (if o.id = id then o.qty else 0) + restingOf id os := by
  simp only [restingOf, List.filter_cons, decide_eq_true_eq]
  split_ifs <;> simp

@[simp] theorem restingOf_append (id : I) (as bs : List (Order P I)) :
    restingOf id (as ++ bs) = restingOf id as + restingOf id bs := by simp [restingOf]

@[simp] theorem filledOf_nil (id : I) : filledOf id ([] : List (Fill P I)) = 0 := rfl

theorem filledOf_cons (id : I) (f : Fill P I) (fs : List (Fill P I)) :
    filledOf id (f :: fs) = (if f.maker = id then f.qty else 0) + filledOf id fs := by
  simp only [filledOf, List.filter_cons, decide_eq_true_eq]
  split_ifs <;> simp

theorem restingOf_eq_zero {id : I} {os : List (Order P I)} (h : id ∉ os.map (·.id)) : restingOf id os = 0 := by
  induction os with
  | nil => rfl
  | cons o os ih =>
    simp only [List.map_cons, List.mem_cons, not_or] at h
    rw [restingOf_cons, ih h.2, if_neg (Ne.symm h.1)]

/-- Under distinct ids, what rests under the id of an order is the order. -/
theorem restingOf_mem {os : List (Order P I)} (hnd : (os.map (·.id)).Nodup) {o : Order P I} (ho : o ∈ os) :
    restingOf o.id os = o.qty := by
  induction os with
  | nil => cases ho
  | cons x os ih =>
    rw [List.map_cons, List.nodup_cons] at hnd
    rw [restingOf_cons]
    rcases List.mem_cons.mp ho with rfl | ho
    · rw [if_pos rfl, restingOf_eq_zero hnd.1]; omega
    · have hne : x.id ≠ o.id := fun e => hnd.1 (e ▸ List.mem_map_of_mem ho)
      rw [if_neg hne, ih hnd.2 ho]; omega

end ById

/-! ### Filling an incoming quantity -/

/-- Fill the quantity `q` from the front, as long as something is left of it and the
price is acceptable. -/
def fill (ok : P → Bool) : ℕ → List (Order P I) → Filled P I
  | q, [] => ⟨[], q, []⟩
  | q, o :: os =>
    if 0 < q ∧ ok o.price then
      if o.qty ≤ q then
        let r := fill ok (q - o.qty) os
        ⟨⟨o.id, o.price, o.qty⟩ :: r.fills, r.left, r.rest⟩
      else ⟨[⟨o.id, o.price, q⟩], 0, { o with qty := o.qty - q } :: os⟩
    else ⟨[], q, o :: os⟩

@[simp] theorem fill_nil (ok : P → Bool) (q : ℕ) : fill ok q ([] : List (Order P I)) = ⟨[], q, []⟩ := rfl

@[simp] theorem fill_zero (ok : P → Bool) (os : List (Order P I)) : fill ok 0 os = ⟨[], 0, os⟩ := by
  cases os <;> simp [fill]

/-- A price that is not acceptable ends the filling. -/
theorem fill_stop {ok : P → Bool} {q : ℕ} {os : List (Order P I)} (h : ∀ o ∈ os.head?, ok o.price = false) :
    fill ok q os = ⟨[], q, os⟩ := by
  cases os with
  | nil => rfl
  | cons o os =>
    have ho := h o (by simp)
    simp [fill, ho]

/-- The front order is filled completely, and the filling goes on. -/
theorem fill_cons_le {ok : P → Bool} {q : ℕ} {o : Order P I} {os : List (Order P I)} (hq : 0 < q)
    (ho : ok o.price) (h : o.qty ≤ q) :
    fill ok q (o :: os) =
      ⟨⟨o.id, o.price, o.qty⟩ :: (fill ok (q - o.qty) os).fills, (fill ok (q - o.qty) os).left,
        (fill ok (q - o.qty) os).rest⟩ := by
  rw [fill, if_pos ⟨hq, ho⟩, if_pos h]

/-- The front order keeps a remainder. -/
theorem fill_cons_gt {ok : P → Bool} {q : ℕ} {o : Order P I} {os : List (Order P I)} (hq : 0 < q)
    (ho : ok o.price) (h : q < o.qty) :
    fill ok q (o :: os) = ⟨[⟨o.id, o.price, q⟩], 0, { o with qty := o.qty - q } :: os⟩ := by
  rw [fill, if_pos ⟨hq, ho⟩, if_neg (by omega)]

/-- **Level by level**: filling from acceptable orders `as` and then from `bs` is
filling from `as`, and then going on from what that leaves. -/
theorem fill_append {ok : P → Bool} {as : List (Order P I)} (bs : List (Order P I)) (h : ∀ o ∈ as, ok o.price)
    (q : ℕ) :
    fill ok q (as ++ bs) =
      let r := fill ok q as
      let r' := fill ok r.left (r.rest ++ bs)
      ⟨r.fills ++ r'.fills, r'.left, r'.rest⟩ := by
  induction as generalizing q with
  | nil => simp
  | cons o as ih =>
    have ho : ok o.price := h o (by simp)
    rcases Nat.eq_zero_or_pos q with rfl | hq
    · simp
    · rw [List.cons_append]
      rcases Nat.lt_or_ge q o.qty with hlt | hge
      · rw [fill_cons_gt hq ho hlt, fill_cons_gt hq ho hlt]
        simp
      · rw [fill_cons_le hq ho hge, fill_cons_le hq ho hge, ih (fun x hx => h x (by simp [hx]))]
        simp

/-- Among acceptable orders, filling ends with nothing left of one side or the other. -/
theorem fill_left_or_rest {ok : P → Bool} {os : List (Order P I)} (h : ∀ o ∈ os, ok o.price) (q : ℕ) :
    (fill ok q os).left = 0 ∨ (fill ok q os).rest = [] := by
  induction os generalizing q with
  | nil => exact Or.inr rfl
  | cons o os ih =>
    have ho : ok o.price := h o (by simp)
    rcases Nat.eq_zero_or_pos q with rfl | hq
    · exact Or.inl (by simp)
    · rcases Nat.lt_or_ge q o.qty with hlt | hge
      · exact Or.inl (by rw [fill_cons_gt hq ho hlt])
      · rw [fill_cons_le hq ho hge]
        exact ih (fun x hx => h x (by simp [hx])) _

/-- **The fills are what the incoming quantity lost.** -/
theorem fill_left_add (ok : P → Bool) (q : ℕ) (os : List (Order P I)) :
    (fill ok q os).left + ((fill ok q os).fills.map (·.qty)).sum = q := by
  induction os generalizing q with
  | nil => simp
  | cons o os ih =>
    by_cases hc : 0 < q ∧ ok o.price
    · obtain ⟨hq, ho⟩ := hc
      rcases Nat.lt_or_ge q o.qty with hlt | hge
      · rw [fill_cons_gt hq ho hlt]; simp
      · rw [fill_cons_le hq ho hge]
        have := ih (q - o.qty)
        simp only [List.map_cons, List.sum_cons]
        omega
    · rw [fill, if_neg hc]; simp

theorem fill_left_le (ok : P → Bool) (q : ℕ) (os : List (Order P I)) : (fill ok q os).left ≤ q := by
  have := fill_left_add ok q os
  omega

/-- A fill is of an acceptable order, at its price, and of no more than it has. -/
theorem order_of_mem_fills {ok : P → Bool} {q : ℕ} {os : List (Order P I)} {f : Fill P I}
    (hf : f ∈ (fill ok q os).fills) :
    ∃ o ∈ os, o.id = f.maker ∧ o.price = f.price ∧ ok f.price = true ∧ f.qty ≤ o.qty := by
  induction os generalizing q with
  | nil => cases hf
  | cons o os ih =>
    by_cases hc : 0 < q ∧ ok o.price
    · obtain ⟨hq, ho⟩ := hc
      rcases Nat.lt_or_ge q o.qty with hlt | hge
      · rw [fill_cons_gt hq ho hlt, List.mem_singleton] at hf
        rw [hf]
        exact ⟨o, List.mem_cons_self, rfl, rfl, ho, Nat.le_of_lt hlt⟩
      · rw [fill_cons_le hq ho hge] at hf
        obtain rfl | hf := List.mem_cons.mp hf
        · exact ⟨o, List.mem_cons_self, rfl, rfl, ho, Nat.le_refl _⟩
        · obtain ⟨x, hx, h⟩ := ih hf
          exact ⟨x, List.mem_cons_of_mem o hx, h⟩
    · rw [fill, if_neg hc] at hf
      cases hf

/-- **The fills are what the resting orders lost**, id by id. -/
theorem fill_account [DecidableEq I] (ok : P → Bool) (q : ℕ) (os : List (Order P I)) (id : I) :
    filledOf id (fill ok q os).fills + restingOf id (fill ok q os).rest = restingOf id os := by
  induction os generalizing q with
  | nil => simp
  | cons o os ih =>
    by_cases hc : 0 < q ∧ ok o.price
    · obtain ⟨hq, ho⟩ := hc
      rcases Nat.lt_or_ge q o.qty with hlt | hge
      · rw [fill_cons_gt hq ho hlt]
        simp only [filledOf_cons, restingOf_cons, filledOf_nil]
        split_ifs <;> omega
      · rw [fill_cons_le hq ho hge]
        have := ih (q - o.qty)
        simp only [filledOf_cons, restingOf_cons]
        omega
    · rw [fill, if_neg hc]; simp

/-- What filling leaves: some orders from the front are gone, and the first one that stays
may have lost quantity. -/
theorem fill_rest (ok : P → Bool) (q : ℕ) (os : List (Order P I)) :
    (fill ok q os).rest <:+ os ∨
      ∃ o tail q', o :: tail <:+ os ∧ q' ≤ o.qty ∧ 0 < q' ∧ (fill ok q os).rest = { o with qty := q' } :: tail := by
  induction os generalizing q with
  | nil => exact Or.inl (by simp)
  | cons o os ih =>
    by_cases hc : 0 < q ∧ ok o.price
    · obtain ⟨hq, ho⟩ := hc
      rcases Nat.lt_or_ge q o.qty with hlt | hge
      · rw [fill_cons_gt hq ho hlt]
        exact Or.inr ⟨o, os, o.qty - q, List.suffix_rfl, by omega, by omega, rfl⟩
      · rw [fill_cons_le hq ho hge]
        rcases ih (q - o.qty) with h | ⟨x, tail, q', h, hq'⟩
        · exact Or.inl (h.trans (List.suffix_cons _ _))
        · exact Or.inr ⟨x, tail, q', h.trans (List.suffix_cons _ _), hq'⟩
    · rw [fill, if_neg hc]
      exact Or.inl List.suffix_rfl

/-- The ids and prices that stay are a tail of those there were. -/
theorem fill_rest_suffix {β : Type*} (g : Order P I → β) (hg : ∀ (o : Order P I) (q' : ℕ), g { o with qty := q' } = g o)
    (ok : P → Bool) (q : ℕ) (os : List (Order P I)) : (fill ok q os).rest.map g <:+ os.map g := by
  rcases fill_rest ok q os with h | ⟨o, tail, q', h, -, -, hr⟩
  · exact h.map g
  · rw [hr, List.map_cons, hg, ← List.map_cons]
    exact h.map g

/-- When something is left over, the best remaining price is not acceptable. -/
theorem fill_rest_head {ok : P → Bool} {q : ℕ} {os : List (Order P I)} (h : 0 < (fill ok q os).left) :
    ∀ o ∈ (fill ok q os).rest.head?, ok o.price = false := by
  induction os generalizing q with
  | nil => simp
  | cons o os ih =>
    by_cases hc : 0 < q ∧ ok o.price
    · obtain ⟨hq, ho⟩ := hc
      rcases Nat.lt_or_ge q o.qty with hlt | hge
      · rw [fill_cons_gt hq ho hlt] at h
        simp at h
      · rw [fill_cons_le hq ho hge] at h ⊢
        exact ih h
    · rw [fill, if_neg hc] at h ⊢
      have : ¬ ok o.price = true := fun e => hc ⟨h, e⟩
      simpa using this

/-- **Enough acceptable quantity in front fills everything.** -/
theorem fill_left_eq_zero {ok : P → Bool} {q : ℕ} {os : List (Order P I)}
    (h : q ≤ totalQty (os.takeWhile fun o => ok o.price)) : (fill ok q os).left = 0 := by
  induction os generalizing q with
  | nil => simpa using h
  | cons o os ih =>
    by_cases ho : ok o.price = true
    · rcases Nat.eq_zero_or_pos q with rfl | hq
      · simp
      · rcases Nat.lt_or_ge q o.qty with hlt | hge
        · rw [fill_cons_gt hq ho hlt]
        · rw [fill_cons_le hq ho hge]
          apply ih
          rw [List.takeWhile_cons_of_pos (by simpa using ho), totalQty_cons] at h
          omega
    · rw [List.takeWhile_cons_of_neg (by simpa using ho)] at h
      have hq : q = 0 := by simpa using h
      simp [hq]

/-- What is filled rests at acceptable prices. -/
theorem le_fill_left_add (ok : P → Bool) (q : ℕ) (os : List (Order P I)) :
    q ≤ (fill ok q os).left + totalQty (os.filter fun o => ok o.price) := by
  induction os generalizing q with
  | nil => simp
  | cons o os ih =>
    by_cases hc : 0 < q ∧ ok o.price
    · obtain ⟨hq, ho⟩ := hc
      rw [List.filter_cons_of_pos (by simpa using ho), totalQty_cons]
      rcases Nat.lt_or_ge q o.qty with hlt | hge
      · omega
      · have := ih (q - o.qty)
        rw [fill_cons_le hq ho hge]
        dsimp only
        omega
    · rw [fill, if_neg hc]
      exact Nat.le_add_right _ _

theorem length_fill_rest_le (ok : P → Bool) (q : ℕ) (os : List (Order P I)) :
    (fill ok q os).rest.length ≤ os.length := by
  have := (fill_rest_suffix (fun _ => ()) (fun _ _ => rfl) ok q os).length_le
  simpa using this

/-- **An incoming order that trades and keeps something** has used up an order. -/
theorem length_fill_rest_lt {ok : P → Bool} {q : ℕ} {o : Order P I} {os : List (Order P I)} (ho : ok o.price)
    (h : 0 < (fill ok q (o :: os)).left) : (fill ok q (o :: os)).rest.length < (o :: os).length := by
  have hq : 0 < q := h.trans_le (fill_left_le ok q (o :: os))
  rcases Nat.lt_or_ge q o.qty with hlt | hge
  · rw [fill_cons_gt hq ho hlt] at h
    exact absurd h (Nat.lt_irrefl 0)
  · rw [fill_cons_le hq ho hge]
    exact Nat.lt_succ_of_le (length_fill_rest_le ok (q - o.qty) os)

/-! ### Other names -/

section Rename

variable {J : Type*} {f : I → J}

/-- An order under another name. -/
def Order.rename (f : I → J) (o : Order P I) : Order P J := ⟨f o.id, o.price, o.qty⟩

/-- A fill does not look at names. -/
theorem fill_rename (ok : P → Bool) (q : ℕ) (os : List (Order P I)) :
    (fill ok q (os.map (Order.rename f))).rest = (fill ok q os).rest.map (Order.rename f) := by
  induction os generalizing q with
  | nil => rfl
  | cons o os ih =>
    rw [List.map_cons]
    by_cases hc : 0 < q ∧ ok o.price
    · obtain ⟨hq, ho⟩ := hc
      rcases Nat.lt_or_ge q o.qty with hlt | hge
      · rw [fill_cons_gt hq ho hlt, fill_cons_gt hq (by exact ho) (by exact hlt)]
        rfl
      · rw [fill_cons_le hq ho hge, fill_cons_le hq (by exact ho) (by exact hge)]
        exact ih (q - o.qty)
    · rw [fill, fill, if_neg hc, if_neg (by exact hc)]
      rfl

/-- Orders are told apart by their names and by what they are under other names. -/
theorem eq_of_map_rename {as bs : List (Order P I)} (h : as.map (Order.rename f) = bs.map (Order.rename f))
    (hid : as.map (·.id) = bs.map (·.id)) : as = bs := by
  induction as generalizing bs with
  | nil => exact (List.map_eq_nil_iff.mp h.symm).symm
  | cons a as ih =>
    cases bs with
    | nil => cases h
    | cons b bs =>
      simp only [List.map_cons, List.cons.injEq] at h hid
      obtain ⟨-, hprice, hqty⟩ := Order.ext_iff.mp h.1
      rw [ih h.2 hid.2, Order.ext hid.1 hprice hqty]

end Rename

/-! ### Joining, leaving and being reduced -/

/-- An order joins before the first one that is strictly worse, so behind every order
at its own price. `ahead p q` says that `p` is strictly better than `q`. -/
def enqueue (ahead : P → P → Bool) (o : Order P I) : List (Order P I) → List (Order P I)
  | [] => [o]
  | x :: xs => if ahead o.price x.price then o :: x :: xs else x :: enqueue ahead o xs

/-- An order joins behind those that are not strictly worse. -/
theorem enqueue_skip {ahead : P → P → Bool} {o : Order P I} {as : List (Order P I)} (bs : List (Order P I))
    (ha : ∀ x ∈ as, ahead o.price x.price = false) : enqueue ahead o (as ++ bs) = as ++ enqueue ahead o bs := by
  induction as with
  | nil => rfl
  | cons a as ih =>
    have := ha a (by simp)
    simp [enqueue, this, ih fun x hx => ha x (by simp [hx])]

/-- **Where an order joins.** -/
theorem enqueue_append {ahead : P → P → Bool} {o : Order P I} {as bs : List (Order P I)}
    (ha : ∀ x ∈ as, ahead o.price x.price = false) (hb : ∀ x ∈ bs.head?, ahead o.price x.price) :
    enqueue ahead o (as ++ bs) = as ++ o :: bs := by
  rw [enqueue_skip bs ha]
  cases bs with
  | nil => rfl
  | cons b bs =>
    have := hb b (by simp)
    simp [enqueue, this]

/-- Joining adds one order. -/
theorem enqueue_perm (ahead : P → P → Bool) (o : Order P I) (os : List (Order P I)) :
    (enqueue ahead o os).Perm (o :: os) := by
  induction os with
  | nil => exact List.Perm.refl _
  | cons x xs ih =>
    rw [enqueue]
    split_ifs
    · exact List.Perm.refl _
    · exact (ih.cons x).trans (List.Perm.swap o x xs)

section ById

variable [DecidableEq I]

/-- The orders without those of an id. -/
def remove (id : I) (os : List (Order P I)) : List (Order P I) := os.filter (·.id ≠ id)

/-- An id loses quantity, and its order leaves when none is left. -/
def reduceBy (id : I) (delta : ℕ) (os : List (Order P I)) : List (Order P I) :=
  os.filterMap fun o =>
    if o.id = id then if o.qty ≤ delta then none else some { o with qty := o.qty - delta } else some o

@[simp] theorem remove_nil (id : I) : remove id ([] : List (Order P I)) = [] := rfl

@[simp] theorem remove_append (id : I) (as bs : List (Order P I)) :
    remove id (as ++ bs) = remove id as ++ remove id bs := List.filter_append ..

@[simp] theorem reduceBy_append (id : I) (delta : ℕ) (as bs : List (Order P I)) :
    reduceBy id delta (as ++ bs) = reduceBy id delta as ++ reduceBy id delta bs := List.filterMap_append ..

theorem remove_cons (id : I) (o : Order P I) (os : List (Order P I)) :
    remove id (o :: os) = if o.id = id then remove id os else o :: remove id os := by
  simp only [remove, List.filter_cons, decide_not, Bool.not_eq_true', decide_eq_false_iff_not]
  split_ifs <;> rfl

theorem reduceBy_cons (id : I) (delta : ℕ) (o : Order P I) (os : List (Order P I)) :
    reduceBy id delta (o :: os) =
      if o.id = id then
        if o.qty ≤ delta then reduceBy id delta os else { o with qty := o.qty - delta } :: reduceBy id delta os
      else o :: reduceBy id delta os := by
  simp only [reduceBy, List.filterMap_cons]
  split_ifs <;> rfl

/-- An id that does not rest has nothing to remove. -/
theorem remove_of_not_mem {id : I} {os : List (Order P I)} (h : id ∉ os.map (·.id)) : remove id os = os := by
  refine List.filter_eq_self.mpr fun o ho => ?_
  have : o.id ≠ id := fun e => h (e ▸ List.mem_map_of_mem ho)
  simpa using this

/-- Where an id rests once, removing it removes one order. -/
theorem length_remove {o : Order P I} {os : List (Order P I)} (hnd : (os.map (·.id)).Nodup) (ho : o ∈ os) :
    (remove o.id os).length + 1 = os.length := by
  obtain ⟨as, bs, rfl⟩ := List.append_of_mem ho
  rw [List.map_append, List.map_cons] at hnd
  have hother := (List.nodup_cons.mp (List.nodup_middle.mp hnd)).1
  rw [List.mem_append, not_or] at hother
  rw [remove_append, remove_cons, if_pos rfl, remove_of_not_mem hother.1, remove_of_not_mem hother.2,
    List.length_append, List.length_append, List.length_cons]
  omega

theorem reduceBy_of_not_mem {id : I} {delta : ℕ} {os : List (Order P I)} (h : id ∉ os.map (·.id)) :
    reduceBy id delta os = os := by
  induction os with
  | nil => rfl
  | cons o os ih =>
    simp only [List.map_cons, List.mem_cons, not_or] at h
    rw [reduceBy_cons, if_neg (Ne.symm h.1), ih h.2]

/-- Reducing an id by as much as there is under it is removing it. -/
theorem reduceBy_eq_remove {id : I} {delta : ℕ} {os : List (Order P I)} (h : ∀ o ∈ os, o.id = id → o.qty ≤ delta) :
    reduceBy id delta os = remove id os := by
  induction os with
  | nil => rfl
  | cons o os ih =>
    rw [reduceBy_cons, remove_cons, ih fun o' ho' => h o' (List.mem_cons_of_mem _ ho')]
    split_ifs with hid hle
    · rfl
    · exact absurd (h o List.mem_cons_self hid) hle
    · rfl

/-- **What fills leave** is what is left when one fill after the other takes its quantity away. -/
theorem fill_rest_eq_foldl (ok : P → Bool) (q : ℕ) {os : List (Order P I)} (hnd : (os.map (·.id)).Nodup) :
    (fill ok q os).rest = (fill ok q os).fills.foldl (fun os f => reduceBy f.maker f.qty os) os := by
  induction os generalizing q with
  | nil => rfl
  | cons o os ih =>
    rw [List.map_cons, List.nodup_cons] at hnd
    by_cases hc : 0 < q ∧ ok o.price
    · obtain ⟨hq, ho⟩ := hc
      rcases Nat.lt_or_ge q o.qty with hlt | hge
      · rw [fill_cons_gt hq ho hlt, List.foldl_cons, List.foldl_nil, reduceBy_cons, if_pos rfl,
          if_neg (Nat.not_le.mpr hlt), reduceBy_of_not_mem hnd.1]
      · rw [fill_cons_le hq ho hge, List.foldl_cons, reduceBy_cons, if_pos rfl, if_pos (Nat.le_refl _),
          reduceBy_of_not_mem hnd.1]
        exact ih (q - o.qty) hnd.2
    · rw [fill, if_neg hc]
      rfl

/-- What is left after an id has lost quantity. -/
theorem mem_reduceBy {id : I} {delta : ℕ} {o : Order P I} {os : List (Order P I)} :
    o ∈ reduceBy id delta os ↔
      (o.id ≠ id ∧ o ∈ os) ∨ ∃ o' ∈ os, o'.id = id ∧ delta < o'.qty ∧ o = { o' with qty := o'.qty - delta } := by
  rw [reduceBy, List.mem_filterMap]
  constructor
  · rintro ⟨o', ho', he⟩
    split_ifs at he with hid hle
    · exact Or.inr ⟨o', ho', hid, by omega, (Option.some.inj he).symm⟩
    · rw [← Option.some.inj he]
      exact Or.inl ⟨hid, ho'⟩
  · rintro (⟨hne, ho⟩ | ⟨o', ho', hid, hlt, rfl⟩)
    · exact ⟨o, ho, if_neg hne⟩
    · exact ⟨o', ho', by rw [if_pos hid, if_neg (by omega)]⟩

/-! What rests under an id, after each of the three. -/

theorem restingOf_perm {as bs : List (Order P I)} (h : as.Perm bs) (id : I) : restingOf id as = restingOf id bs :=
  ((h.filter _).map _).sum_eq

theorem restingOf_enqueue (ahead : P → P → Bool) (o : Order P I) (os : List (Order P I)) (id : I) :
    restingOf id (enqueue ahead o os) = (if o.id = id then o.qty else 0) + restingOf id os := by
  rw [restingOf_perm (enqueue_perm ahead o os), restingOf_cons]

theorem restingOf_remove (id id' : I) (os : List (Order P I)) :
    restingOf id' (remove id os) = if id = id' then 0 else restingOf id' os := by
  induction os with
  | nil => simp
  | cons o os ih =>
    rw [remove_cons]
    split_ifs at ih ⊢ with ho hid
    · exact ih
    · rw [ih, restingOf_cons, if_neg (fun e => hid (ho.symm.trans e)), Nat.zero_add]
    · rw [restingOf_cons, ih, if_neg (fun e => ho (e.trans (Eq.symm ‹id = id'›)))]
    · rw [restingOf_cons, restingOf_cons, ih]

/-- Reducing an id takes that much from it, or all that there is. -/
theorem restingOf_reduceBy {os : List (Order P I)} (hnd : (os.map (·.id)).Nodup) (id : I) (delta : ℕ) (id' : I) :
    restingOf id' (reduceBy id delta os) + (if id = id' then min delta (restingOf id' os) else 0) =
      restingOf id' os := by
  induction os with
  | nil => simp [reduceBy]
  | cons o os ih =>
    rw [List.map_cons, List.nodup_cons] at hnd
    have ih := ih hnd.2
    rw [reduceBy_cons, restingOf_cons]
    by_cases ho : o.id = id
    · -- the one order under the id
      have hkeep : reduceBy id delta os = os := reduceBy_of_not_mem (ho ▸ hnd.1)
      have hhead : restingOf id' (if o.qty ≤ delta then os else { o with qty := o.qty - delta } :: os) =
          (if id = id' then o.qty - delta else 0) + restingOf id' os := by
        split_ifs with hq hid hid
        · omega
        · exact (Nat.zero_add _).symm
        · rw [restingOf_cons, ho, if_pos hid]
        · rw [restingOf_cons, ho, if_neg hid]
      rw [if_pos ho, hkeep, hhead, ho]
      split_ifs with hid
      · have hrest : restingOf id' os = 0 := hid ▸ restingOf_eq_zero (ho ▸ hnd.1)
        omega
      · rfl
    · rw [if_neg ho, restingOf_cons]
      split_ifs at ih ⊢ with hid hid'
      · exact absurd (hid.trans hid'.symm) ho
      · omega
      · omega
      · omega

end ById

/-! ### Can a quantity be filled completely? -/

section Covers

variable [DecidableEq P]

/-- The running sum `acc` in machine words of `2 ^ w`, over the orders at acceptable prices, and
a comparison with `need` at the end of each price. -/
def coversWrapped (w : ℕ) (ok : P → Bool) (need : ℕ) : ℕ → List (Order P I) → Bool
  | _, [] => false
  | acc, o :: os =>
    if ok o.price then
      let acc' := (acc + o.qty) % 2 ^ w
      if os.head?.map (·.price) = some o.price then coversWrapped w ok need acc' os
      else decide (need ≤ acc') || coversWrapped w ok need acc' os
    else false

variable {w : ℕ} {ok : P → Bool} {need acc : ℕ}

@[simp] theorem coversWrapped_nil : coversWrapped w ok need acc ([] : List (Order P I)) = false := rfl

theorem coversWrapped_stop {os : List (Order P I)} (h : ∀ o ∈ os.head?, ok o.price = false) :
    coversWrapped w ok need acc os = false := by
  cases os with
  | nil => rfl
  | cons o os => simp [coversWrapped, h o (by simp)]

/-- **One price at a time**: the orders at one acceptable price add their total to the
sum, and are followed by one comparison. -/
theorem coversWrapped_level {p : P} {as bs : List (Order P I)} (hne : as ≠ []) (hp : ∀ o ∈ as, o.price = p)
    (hok : ok p) (hb : ∀ o ∈ bs.head?, o.price ≠ p) :
    coversWrapped w ok need acc (as ++ bs) =
      (decide (need ≤ (acc + totalQty as) % 2 ^ w) ||
        coversWrapped w ok need ((acc + totalQty as) % 2 ^ w) bs) := by
  induction as generalizing acc with
  | nil => exact absurd rfl hne
  | cons a as ih =>
    obtain rfl : a.price = p := hp a (by simp)
    rw [List.cons_append, coversWrapped, if_pos hok]
    cases as with
    | nil =>
      have : ¬ bs.head?.map (·.price) = some a.price := by
        intro e
        obtain ⟨o, ho, he⟩ := Option.map_eq_some_iff.mp e
        exact hb o ho he
      rw [List.nil_append, if_neg this]
      simp
    | cons a' as =>
      have ha' : a'.price = a.price := hp a' (by simp)
      rw [if_pos (by simp [ha']), ih (by simp) (fun o ho => hp o (by simp [ho]))]
      simp only [totalQty_cons, Nat.mod_add_mod, Nat.add_assoc]

/-- **A yes is right**: the acceptable quantity in front covers the need. -/
theorem le_of_coversWrapped {os : List (Order P I)} (h : coversWrapped w ok need acc os = true) :
    need ≤ acc + totalQty (os.takeWhile fun o => ok o.price) := by
  induction os generalizing acc with
  | nil => simp at h
  | cons o os ih =>
    rw [coversWrapped] at h
    split_ifs at h with ho he
    · have := ih h
      have hm := Nat.mod_le (acc + o.qty) (2 ^ w)
      rw [List.takeWhile_cons_of_pos (by simpa using ho), totalQty_cons]
      omega
    · have hm := Nat.mod_le (acc + o.qty) (2 ^ w)
      rw [List.takeWhile_cons_of_pos (by simpa using ho), totalQty_cons]
      rcases Bool.or_eq_true_iff.mp h with hd | hr
      · have := of_decide_eq_true hd
        omega
      · have := ih hr
        omega

/-- **Without wrapping the answer is exact.** -/
theorem coversWrapped_iff {os : List (Order P I)} (hw : acc + totalQty os < 2 ^ w) (hne : os ≠ [])
    (hok : ∀ o ∈ os.head?, ok o.price) :
    coversWrapped w ok need acc os = true ↔ need ≤ acc + totalQty (os.takeWhile fun o => ok o.price) := by
  refine ⟨le_of_coversWrapped, fun h => ?_⟩
  induction os generalizing acc with
  | nil => exact absurd rfl hne
  | cons o os ih =>
    have ho : ok o.price := hok o (by simp)
    rw [totalQty_cons] at hw
    rw [List.takeWhile_cons_of_pos (by simpa using ho), totalQty_cons] at h
    have hm : (acc + o.qty) % 2 ^ w = acc + o.qty := Nat.mod_eq_of_lt (by omega)
    simp only [coversWrapped, if_pos ho, hm]
    cases os with
    | nil => simpa using h
    | cons o' os =>
      by_cases hok' : ok o'.price = true
      · have : coversWrapped w ok need (acc + o.qty) (o' :: os) = true :=
          ih (by omega) (by simp) (by simpa using hok') (by omega)
        rw [this]
        split_ifs <;> simp
      · have hne' : ¬ o'.price = o.price := fun e => hok' (e ▸ ho)
        rw [List.takeWhile_cons_of_neg (by simpa using hok')] at h
        rw [if_neg (by simpa using hne')]
        simpa using Or.inl h

end Covers

/-- Where the acceptable orders come first, those in front are all of them. -/
theorem takeWhile_eq_filter {ok : Order P I → Bool} {os : List (Order P I)}
    (h : os.Pairwise fun x y => ok y → ok x) : os.takeWhile ok = os.filter ok := by
  induction os with
  | nil => rfl
  | cons o os ih =>
    rw [List.pairwise_cons] at h
    by_cases ho : ok o = true
    · rw [List.takeWhile_cons_of_pos ho, List.filter_cons_of_pos ho, ih h.2]
    · rw [List.takeWhile_cons_of_neg ho, List.filter_cons_of_neg ho, eq_comm, List.filter_eq_nil_iff]
      exact fun y hy hok => ho (h.1 y hy hok)

/-! ### Orders with something left -/

/-- Something is left of every order. -/
def Positive (os : List (Order P I)) : Prop := ∀ o ∈ os, 0 < o.qty

theorem positive_nil : Positive ([] : List (Order P I)) := by simp [Positive]

/-- Filling leaves no order without quantity behind. -/
theorem Positive.fill_rest {os : List (Order P I)} (h : Positive os) (ok : P → Bool) (q : ℕ) :
    Positive (fill ok q os).rest := by
  rcases Foundation.fill_rest ok q os with hsuffix | ⟨o, tail, q', hsuffix, -, hq', heq⟩
  · exact fun o ho => h o (hsuffix.subset ho)
  · rw [heq]
    intro x hx
    rcases List.mem_cons.mp hx with rfl | hx
    · exact hq'
    · exact h x (hsuffix.subset (List.mem_cons_of_mem _ hx))

/-- **No fill is empty**, and none is for more than there is to fill. -/
theorem Positive.fill_fills {os : List (Order P I)} (h : Positive os) (ok : P → Bool) (q : ℕ) :
    ∀ f ∈ (fill ok q os).fills, 0 < f.qty ∧ f.qty ≤ q := by
  induction os generalizing q with
  | nil => simp
  | cons o os ih =>
    have ho := h o List.mem_cons_self
    have hos : Positive os := fun x hx => h x (List.mem_cons_of_mem _ hx)
    by_cases hc : 0 < q ∧ ok o.price
    · obtain ⟨hq, hok⟩ := hc
      rcases Nat.lt_or_ge q o.qty with hlt | hge
      · rw [fill_cons_gt hq hok hlt]
        rintro f hf
        obtain rfl := List.mem_singleton.mp hf
        exact ⟨hq, le_rfl⟩
      · rw [fill_cons_le hq hok hge]
        intro f hf
        rcases List.mem_cons.mp hf with rfl | hf
        · exact ⟨ho, hge⟩
        · obtain ⟨hpos, hle⟩ := ih hos (q - o.qty) f hf
          exact ⟨hpos, hle.trans (Nat.sub_le _ _)⟩
    · rw [fill, if_neg hc]
      simp

theorem Positive.enqueue {os : List (Order P I)} (h : Positive os) (ahead : P → P → Bool) {o : Order P I}
    (ho : 0 < o.qty) : Positive (enqueue ahead o os) := by
  intro x hx
  rcases List.mem_cons.mp ((enqueue_perm ahead o os).mem_iff.mp hx) with rfl | hx
  · exact ho
  · exact h x hx

theorem Positive.remove [DecidableEq I] {os : List (Order P I)} (h : Positive os) (id : I) : Positive (remove id os) :=
  fun o ho => h o (List.mem_of_mem_filter ho)

theorem Positive.reduceBy [DecidableEq I] {os : List (Order P I)} (h : Positive os) (id : I) (delta : ℕ) :
    Positive (reduceBy id delta os) := by
  intro o ho
  rcases mem_reduceBy.mp ho with ⟨-, ho⟩ | ⟨o', -, -, hlt, rfl⟩
  · exact h o ho
  · exact Nat.sub_pos_of_lt hlt

/-- What is left of an order does not depend on its name. -/
theorem positive_rename {J : Type*} {f : I → J} {os : List (Order P I)} :
    Positive (os.map (Order.rename f)) ↔ Positive os := by
  simp [Positive, Order.rename]

end MatchingEngine.Foundation
