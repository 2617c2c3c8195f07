import MatchingEngine.Core.Surgery

/-!
# The fill-or-kill test

`can_fully_fill` adds up the cached totals of the levels, in 64 bits, from the best price on,
and answers at the end of each level whether the sum is enough. It visits the empty levels
too, which add nothing and answer what the level before them answered.

The answer is `Book.coversWrapping`: that of a sum over the orders themselves. Only the price
of a level can overflow, and only beyond the orders.
-/

namespace MatchingEngine

open Foundation Function OrderBookV2

variable {s : OrderBookV2} {c : Layout} {i : ℕ} {taker : OrderRequest}

/-- The sum after one more level. -/
theorem Represents.toNat_add_totalQty (h : Represents s c) (available : Quantity) (i : ℕ) :
    (available + (s.level i).totalQty).toNat = (available.toNat + totalQty (s.queue c i)) % 2 ^ 64 := by
  rw [UInt64.toNat_add, (h.level i).total, totalQty_queue]
  omega

/-- An empty level adds nothing. -/
theorem Represents.add_totalQty_empty (h : Represents s c) (available : Quantity) (he : c i = []) :
    available + (s.level i).totalQty = available := by
  have := available.toNat_lt
  rw [← UInt64.toNat_inj, h.toNat_add_totalQty, queue_eq_nil.mpr he, totalQty_nil]
  omega

/-- **A level in use** adds its total, and answers whether the sum is enough. -/
theorem Represents.coversWrapped_level (h : Represents s c) (hne : c i ≠ []) (hok : taker.accepts (s.base + i))
    (available : Quantity) {bs : List (Order ℤ OrderId)} (hb : ∀ o ∈ bs, o.price ≠ s.base + i) :
    coversWrapped 64 taker.accepts taker.qty.toNat available.toNat (s.queue c i ++ bs) =
      if taker.qty ≤ available + (s.level i).totalQty then true
      else coversWrapped 64 taker.accepts taker.qty.toNat (available + (s.level i).totalQty).toNat bs := by
  rw [Foundation.coversWrapped_level (queue_eq_nil.not.mpr hne) (fun o ho => price_of_mem_queue ho) hok
    fun o ho => hb o (List.mem_of_mem_head? ho), ← h.toNat_add_totalQty]
  split_ifs with henough
  · rw [decide_eq_true (UInt64.le_iff_toNat_le.mp henough), Bool.true_or]
  · rw [decide_eq_false (UInt64.le_iff_toNat_le.not.mp henough), Bool.false_or]

/-- The price of a level overflows, or is computed. -/
theorem ends_levelPrice (p : ℤ) : Ends (· = .overflow) (i64 p) (· = p) := by
  rw [i64]
  split_ifs
  · rfl
  · rfl

/-- **The sum upwards.** -/
theorem Represents.fillableUp (h : Represents s c) (hside : taker.side = .buy) (htype : taker.type ≠ .market)
    {left : ℕ} (hi : i + left = s.levels.length) {available : Quantity}
    (hfirst : c i ≠ [] ∨ ¬ taker.qty ≤ available) :
    Ends (· = .overflow) (s.fillableUp taker left i available)
      (· = coversWrapped 64 taker.accepts taker.qty.toNat available.toNat (up (s.queue c) left i)) := by
  have hacc : ∀ p, taker.accepts p = decide (p ≤ taker.price) := by
    intro p
    rw [OrderRequest.accepts, hside]
    simp [htype]
  induction left generalizing i available with
  | zero => exact rfl
  | succ left ih =>
    rw [OrderBookV2.fillableUp]
    refine Ends.bind (ends_levelPrice _) fun p hp => ?_
    rw [hp]
    have habove : ∀ o ∈ up (s.queue c) left (i + 1), s.base + (i : ℤ) < o.price := by
      intro o ho
      obtain ⟨j, hj, -, ho⟩ := mem_up.mp ho
      rw [price_of_mem_queue ho]
      omega
    split_ifs with hlimit
    · -- every order from here on is beyond the limit
      refine (coversWrapped_stop fun o ho => ?_).symm
      have ho := List.mem_of_mem_head? ho
      rw [up, List.mem_append] at ho
      rw [hacc, decide_eq_false_iff_not]
      rcases ho with ho | ho
      · rw [price_of_mem_queue ho]
        omega
      · have := habove o ho
        omega
    rw [levelAt_ok (by omega), ok_bind]
    dsimp only
    have hok : taker.accepts (s.base + (i : ℤ)) = true := by rw [hacc]; simpa using hlimit
    rcases eq_or_ne (c i) [] with he | hne
    · have hbelow := hfirst.resolve_left (not_not.mpr he)
      rw [h.add_totalQty_empty available he, if_neg hbelow, up, queue_eq_nil.mpr he, List.nil_append]
      exact ih (by omega) (Or.inr hbelow)
    · rw [up, h.coversWrapped_level hne hok available fun o ho => (habove o ho).ne']
      split_ifs with henough
      · exact rfl
      · exact ih (by omega) (Or.inr henough)

/-- **The sum downwards.** -/
theorem Represents.fillableDown (h : Represents s c) (hside : taker.side = .sell) (htype : taker.type ≠ .market)
    (hi : i ≤ s.levels.length) {available : Quantity}
    (hfirst : (∃ k, i = k + 1 ∧ c k ≠ []) ∨ ¬ taker.qty ≤ available) :
    Ends (· = .overflow) (s.fillableDown taker i available)
      (· = coversWrapped 64 taker.accepts taker.qty.toNat available.toNat (down (s.queue c) i)) := by
  have hacc : ∀ p, taker.accepts p = decide (taker.price ≤ p) := by
    intro p
    rw [OrderRequest.accepts, hside]
    simp [htype]
  induction i generalizing available with
  | zero => exact rfl
  | succ i ih =>
    rw [OrderBookV2.fillableDown]
    refine Ends.bind (ends_levelPrice _) fun p hp => ?_
    rw [hp]
    have hbelow : ∀ o ∈ down (s.queue c) i, o.price < s.base + (i : ℤ) := by
      intro o ho
      obtain ⟨j, hj, ho⟩ := mem_down.mp ho
      rw [price_of_mem_queue ho]
      omega
    split_ifs with hlimit
    · refine (coversWrapped_stop fun o ho => ?_).symm
      have ho := List.mem_of_mem_head? ho
      rw [down, List.mem_append] at ho
      rw [hacc, decide_eq_false_iff_not]
      rcases ho with ho | ho
      · rw [price_of_mem_queue ho]
        omega
      · have := hbelow o ho
        omega
    rw [levelAt_ok (by omega), ok_bind]
    dsimp only
    have hok : taker.accepts (s.base + (i : ℤ)) = true := by rw [hacc]; simpa using hlimit
    rcases eq_or_ne (c i) [] with he | hne
    · have hno : ¬ taker.qty ≤ available := by
        rcases hfirst with ⟨k, hk, hck⟩ | hno
        · obtain rfl : i = k := by omega
          exact absurd he hck
        · exact hno
      rw [h.add_totalQty_empty available he, if_neg hno, down, queue_eq_nil.mpr he, List.nil_append]
      exact ih (by omega) (Or.inr hno)
    · rw [down, h.coversWrapped_level hne hok available fun o ho => (hbelow o ho).ne]
      split_ifs with henough
      · exact rfl
      · exact ih (by omega) (Or.inr henough)

/-- **`can_fully_fill`**, for a quantity that is not zero. -/
theorem Settled.canFullyFill (h : Settled s c) (htype : taker.type ≠ .market) :
    Ends (· = .overflow) (s.canFullyFill taker) fun b => taker.qty ≠ 0 → b = (s.bookOf c).coversWrapping taker := by
  rw [OrderBookV2.canFullyFill]
  cases hside : taker.side with
  | buy =>
    have hcov : (s.bookOf c).coversWrapping taker =
        coversWrapped 64 taker.accepts taker.qty.toNat 0 (s.bookOf c).asks := by rw [Book.coversWrapping, hside]; rfl
    dsimp only
    split_ifs with hneg
    · intro hq
      rw [hcov, h.asks_eq_nil hneg, coversWrapped_nil]
      simpa using hq
    · obtain ⟨k, hk⟩ := Int.eq_ofNat_of_zero_le (not_lt.mp hneg)
      have hlive := h.ask (by omega)
      rw [hk, Int.toNat_natCast] at hlive ⊢
      have hlt := h.lt_length hlive
      have hasks : (s.bookOf c).asks = up (s.queue c) (s.levels.length - k) k := by
        rw [h.asks_split hk, up_first hlt]
      refine (h.fillableUp hside htype (by omega) (Or.inl hlive)).mono fun b hb _ => ?_
      rw [hcov, hasks, hb]
      rfl
  | sell =>
    have hcov : (s.bookOf c).coversWrapping taker =
        coversWrapped 64 taker.accepts taker.qty.toNat 0 (s.bookOf c).bids := by rw [Book.coversWrapping, hside]; rfl
    dsimp only
    split_ifs with hneg
    · intro hq
      rw [hcov, h.bids_eq_nil hneg, coversWrapped_nil]
      simpa using hq
    · obtain ⟨k, hk⟩ := Int.eq_ofNat_of_zero_le (not_lt.mp hneg)
      have hlive := h.bid (by omega)
      rw [hk, Int.toNat_natCast] at hlive ⊢
      have hlt := h.lt_length hlive
      refine (h.fillableDown hside htype hlt (Or.inl ⟨k, rfl, hlive⟩)).mono fun b hb _ => ?_
      rw [hcov, h.bids_split hk, hb]
      rfl

end MatchingEngine
