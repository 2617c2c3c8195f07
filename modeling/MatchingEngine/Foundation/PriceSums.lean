import MatchingEngine.Foundation.PriceTime

/-!
# Quantities by price

What rests at one price (`qtyAt`) and at the prices strictly better than it (`qtyAhead`), on one
side of a book. No change but the arrival of an order makes the first one grow, and that one does
at the order's own price only.
-/

namespace MatchingEngine.Foundation

variable {P I : Type*}

/-- The quantity at a price. -/
def qtyAt [DecidableEq P] (p : P) (os : List (Order P I)) : ℕ := totalQty (os.filter fun o => o.price = p)

/-- The quantity at the prices strictly better than one. -/
def qtyAhead (ahead : P → P → Bool) (p : P) (os : List (Order P I)) : ℕ := totalQty (os.filter fun o => ahead o.price p)

/-- Fewer orders, less quantity. -/
theorem totalQty_le_of_sublist {as bs : List (Order P I)} (h : as.Sublist bs) : totalQty as ≤ totalQty bs := by
  induction h with
  | slnil => exact le_rfl
  | cons b h ih =>
    rw [totalQty_cons]
    exact ih.trans (Nat.le_add_left _ _)
  | cons_cons b h ih =>
    rw [totalQty_cons, totalQty_cons]
    exact Nat.add_le_add_left ih _

section AtPrice

variable [DecidableEq P]

/-- Orders at a price, among others. -/
theorem totalQty_le_qtyAt {p : P} {as bs : List (Order P I)} (hp : ∀ o ∈ as, o.price = p) (h : as.Sublist bs) :
    totalQty as ≤ qtyAt p bs := by
  have hall : as.filter (fun o => decide (o.price = p)) = as :=
    List.filter_eq_self.mpr fun o ho => decide_eq_true (hp o ho)
  have hsub := h.filter fun o => decide (o.price = p)
  rw [hall] at hsub
  exact totalQty_le_of_sublist hsub

@[simp] theorem qtyAt_nil (p : P) : qtyAt p ([] : List (Order P I)) = 0 := rfl

theorem qtyAt_cons (p : P) (o : Order P I) (os : List (Order P I)) :
    qtyAt p (o :: os) = (if o.price = p then o.qty else 0) + qtyAt p os := by
  rw [qtyAt, List.filter_cons]
  by_cases h : o.price = p
  · rw [if_pos (decide_eq_true h), if_pos h, totalQty_cons, qtyAt]
  · rw [if_neg (by simpa using h), if_neg h, Nat.zero_add, qtyAt]

/-- The names do not matter. -/
theorem qtyAt_rename {J : Type*} (f : I → J) (p : P) (os : List (Order P I)) :
    qtyAt p (os.map (Order.rename f)) = qtyAt p os := by
  induction os with
  | nil => rfl
  | cons o os ih => rw [List.map_cons, qtyAt_cons, qtyAt_cons, ih]; rfl

/-! ### Changes of a side -/

/-- Filling takes quantity away. -/
theorem qtyAt_fill_rest_le (ok : P → Bool) (q : ℕ) (p : P) (os : List (Order P I)) :
    qtyAt p (fill ok q os).rest ≤ qtyAt p os := by
  induction os generalizing q with
  | nil => exact le_rfl
  | cons o os ih =>
    by_cases hc : 0 < q ∧ ok o.price
    · obtain ⟨hq, ho⟩ := hc
      rcases Nat.lt_or_ge q o.qty with hlt | hge
      · rw [fill_cons_gt hq ho hlt, qtyAt_cons, qtyAt_cons]
        dsimp only
        split_ifs <;> omega
      · rw [fill_cons_le hq ho hge, qtyAt_cons]
        exact (ih (q - o.qty)).trans (Nat.le_add_left _ _)
    · rw [fill, if_neg hc]

/-- What arrives counts at its own price. -/
theorem qtyAt_enqueue (ahead : P → P → Bool) (o : Order P I) (p : P) (os : List (Order P I)) :
    qtyAt p (enqueue ahead o os) = (if o.price = p then o.qty else 0) + qtyAt p os := by
  rw [← qtyAt_cons]
  exact (((enqueue_perm ahead o os).filter _).map _).sum_eq

section ById

variable [DecidableEq I]

theorem qtyAt_remove_le (id : I) (p : P) (os : List (Order P I)) : qtyAt p (remove id os) ≤ qtyAt p os := by
  induction os with
  | nil => exact le_rfl
  | cons o os ih =>
    rw [remove_cons]
    split_ifs
    · rw [qtyAt_cons]
      exact ih.trans (Nat.le_add_left _ _)
    · rw [qtyAt_cons, qtyAt_cons]
      exact Nat.add_le_add_left ih _

theorem qtyAt_reduceBy_le (id : I) (delta : ℕ) (p : P) (os : List (Order P I)) :
    qtyAt p (reduceBy id delta os) ≤ qtyAt p os := by
  induction os with
  | nil => exact le_rfl
  | cons o os ih =>
    rw [reduceBy_cons, qtyAt_cons]
    split_ifs with hid hle hp hp
    · omega
    · omega
    · rw [qtyAt_cons, if_pos (by exact hp)]
      dsimp only
      omega
    · rw [qtyAt_cons, if_neg (by exact hp)]
      omega
    · rw [qtyAt_cons, if_pos (by assumption)]
      omega
    · rw [qtyAt_cons, if_neg (by assumption)]
      omega

end ById

end AtPrice

/-! ### A price and the orders around it -/

section Around

variable {p : P} {front level back : List (Order P I)}

/-- The quantity at a price is that of its orders. -/
theorem qtyAt_around [DecidableEq P] (hfront : ∀ o ∈ front, o.price ≠ p) (hlevel : ∀ o ∈ level, o.price = p)
    (hback : ∀ o ∈ back, o.price ≠ p) : qtyAt p (front ++ (level ++ back)) = totalQty level := by
  have h1 : front.filter (fun o => decide (o.price = p)) = [] :=
    List.filter_eq_nil_iff.mpr fun o ho => by simpa using hfront o ho
  have h2 : level.filter (fun o => decide (o.price = p)) = level :=
    List.filter_eq_self.mpr fun o ho => by simpa using hlevel o ho
  have h3 : back.filter (fun o => decide (o.price = p)) = [] :=
    List.filter_eq_nil_iff.mpr fun o ho => by simpa using hback o ho
  rw [qtyAt, List.filter_append, List.filter_append, h1, h2, h3, List.nil_append, List.append_nil]

/-- The quantity ahead of a price is that of the orders in front. -/
theorem qtyAhead_around {ahead : P → P → Bool} (hirrefl : ahead p p = false) (hfront : ∀ o ∈ front, ahead o.price p = true)
    (hlevel : ∀ o ∈ level, o.price = p) (hback : ∀ o ∈ back, ahead o.price p = false) :
    qtyAhead ahead p (front ++ (level ++ back)) = totalQty front := by
  have h2 : level.filter (fun o => ahead o.price p) = [] :=
    List.filter_eq_nil_iff.mpr fun o ho => by simp [hlevel o ho, hirrefl]
  have h3 : back.filter (fun o => ahead o.price p) = [] :=
    List.filter_eq_nil_iff.mpr fun o ho => by simp [hback o ho]
  rw [qtyAhead, List.filter_append, List.filter_append, List.filter_eq_self.mpr hfront, h2, h3, List.append_nil,
    List.append_nil]

end Around

/-! ### What filling leaves over -/

/-- **What is left of an incoming quantity** is what the acceptable orders in front do not cover. -/
theorem fill_left_eq (ok : P → Bool) (q : ℕ) (os : List (Order P I)) :
    (fill ok q os).left = q - totalQty (os.takeWhile fun o => ok o.price) := by
  induction os generalizing q with
  | nil => simp
  | cons o os ih =>
    by_cases ho : ok o.price = true
    · rw [List.takeWhile_cons_of_pos (by simpa using ho), totalQty_cons]
      rcases Nat.eq_zero_or_pos q with rfl | hq
      · simp
      · rcases Nat.lt_or_ge q o.qty with hlt | hge
        · rw [fill_cons_gt hq ho hlt]
          dsimp only
          omega
        · rw [fill_cons_le hq ho hge]
          dsimp only
          rw [ih]
          omega
    · rw [List.takeWhile_cons_of_neg (by simpa using ho), fill, if_neg fun hc => ho hc.2]
      rfl

end MatchingEngine.Foundation
