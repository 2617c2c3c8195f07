import Mathlib.Algebra.Ring.Int.Defs
import Mathlib.Data.Nat.Basic

/-!
# Orders and trades

The types of `cpp/include/order_book_v2.h` that every stage of the pipeline shares.
Ids and quantities are 64-bit words. A `Price` is an integer number of ticks; the code
keeps it in an `int64_t`, and every price computation of the engine that could leave 64
bits is checked where it is made (`InI64`), since there the language defines no result.
-/

namespace MatchingEngine

/-- `OrderId`. -/
abbrev OrderId := UInt64

/-- `Quantity`. -/
abbrev Quantity := UInt64

/-- The value fits in an `int64_t`. -/
def InI64 (x : ℤ) : Prop := -2 ^ 63 ≤ x ∧ x < 2 ^ 63

instance (x : ℤ) : Decidable (InI64 x) := inferInstanceAs (Decidable (_ ∧ _))

/-- `enum class Side`. -/
inductive Side where
  /-- `Side::Buy`. -/
  | buy
  /-- `Side::Sell`. -/
  | sell
  deriving DecidableEq, Repr

/-- The other side. -/
def Side.opposite : Side → Side
  | .buy => .sell
  | .sell => .buy

@[simp] theorem Side.opposite_opposite (s : Side) : s.opposite.opposite = s := by cases s <;> rfl

/-- `enum class Type`. -/
inductive OrderType where
  /-- Matches within its limit price, and rests what is left. -/
  | limit
  /-- Matches at any price; the remainder is discarded. -/
  | market
  /-- Cancels the resting order with the request's id. -/
  | cancel
  /-- Immediate-or-cancel: matches within its limit; the remainder is discarded. -/
  | ioc
  /-- Fill-or-kill: matches only if it can be filled completely. -/
  | fok
  /-- Never takes liquidity: rejected if it would cross, else it rests. -/
  | postOnly
  deriving DecidableEq, Repr

/-- `struct OrderRequest`. -/
structure OrderRequest where
  /-- `id`. -/
  id : OrderId
  /-- `side`. -/
  side : Side
  /-- `type`. -/
  type : OrderType
  /-- `price`, ignored for Market. -/
  price : ℤ
  /-- `qty`. -/
  qty : Quantity
  deriving DecidableEq, Repr

/-- `struct Trade`. -/
structure Trade where
  /-- `maker_id`. -/
  makerId : OrderId
  /-- `taker_id`. -/
  takerId : OrderId
  /-- `price`, always the maker's. -/
  price : ℤ
  /-- `qty`. -/
  qty : Quantity
  deriving DecidableEq, Repr

/-! ### Quantities as natural numbers -/

theorem toNat_min (a b : Quantity) : (min a b).toNat = min a.toNat b.toNat := by
  show (if a ≤ b then a else b).toNat = _
  by_cases h : a ≤ b
  · rw [if_pos h, Nat.min_eq_left (UInt64.le_iff_toNat_le.mp h)]
  · rw [if_neg h, Nat.min_eq_right]
    rw [UInt64.le_iff_toNat_le] at h
    omega

theorem toNat_eq_zero {a : Quantity} : a.toNat = 0 ↔ a = 0 := by
  rw [← UInt64.toNat_inj]; rfl

theorem toNat_pos {a : Quantity} : 0 < a.toNat ↔ 0 < a := by
  rw [UInt64.lt_iff_toNat_lt]; rfl

end MatchingEngine
