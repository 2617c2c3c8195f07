import MatchingEngine.Core.Order
import MatchingEngine.Foundation.Outcome
import Mathlib.Algebra.Ring.Nat
import Mathlib.Tactic.Common

/-!
# The integers of the sidecar

The fixed-width arithmetic that the Rust crate of the repository uses. A plain `+`, `-` or
`*` that leaves its type panics in a build with overflow checks and wraps in one without
them; neither is what the expression says, and the definitions keep it apart from every
result as a `Panic`.
-/

namespace MatchingEngine.Sidecar

/-- What the crate's code may do instead of returning. -/
inductive Panic where
  /-- An arithmetic operation leaves its type. -/
  | overflow
  /-- `String::truncate` in the middle of a character. -/
  | charBoundary
  deriving DecidableEq, Repr

/-- The value of an `i64` operation. -/
def i64Op (x : ℤ) : Except Panic Int64 := if InI64 x then .ok (Int64.ofInt x) else .error .overflow

/-- The value of an `i128` operation. -/
def i128Op (x : ℤ) : Except Panic ℤ :=
  if -2 ^ 127 ≤ x ∧ x < 2 ^ 127 then .ok x else .error .overflow

/-- `i64::saturating_mul`. -/
def saturatingMul (a b : Int64) : Int64 := Int64.ofIntClamp (a.toInt * b.toInt)

/-- `qty as i64`. -/
def asI64 (qty : UInt64) : Int64 := qty.toInt64

/-- The integer that `as i64` makes of a quantity. -/
def signed (qty : UInt64) : ℤ := if qty.toNat < 2 ^ 63 then qty.toNat else qty.toNat - 2 ^ 64

theorem inI64_toInt (a : Int64) : InI64 a.toInt := ⟨a.le_toInt, a.toInt_lt⟩

theorem toInt_ofInt {x : ℤ} (h : InI64 x) : (Int64.ofInt x).toInt = x := Int64.toInt_ofInt_of_le h.1 h.2

theorem i64Op_of_inI64 {x : ℤ} (h : InI64 x) : i64Op x = .ok (Int64.ofInt x) := if_pos h

theorem i64Op_of_not {x : ℤ} (h : ¬ InI64 x) : i64Op x = .error .overflow := if_neg h

theorem i64Op_eq_ok {x : ℤ} {a : Int64} : i64Op x = .ok a ↔ a.toInt = x := by
  constructor
  · intro h
    by_cases hx : InI64 x
    · rw [i64Op_of_inI64 hx] at h
      obtain rfl := Except.ok.inj h
      exact toInt_ofInt hx
    · rw [i64Op_of_not hx] at h
      exact nomatch h
  · rintro rfl
    rw [i64Op_of_inI64 (inI64_toInt a), Int64.ofInt_toInt]

theorem toInt_asI64 (qty : UInt64) : (asI64 qty).toInt = signed qty := by
  show qty.toBitVec.toInt = _
  have hlt := qty.toNat_lt
  rw [BitVec.toInt_eq_toNat_cond, signed]
  simp only [UInt64.toNat_toBitVec]
  split_ifs <;> omega

/-- Clamping keeps on its side of a bound that an `i64` can hold, but for the greatest one. -/
theorem lt_ofIntClamp (m : Int64) (x : ℤ) :
    m < Int64.ofIntClamp x ↔ m.toInt < x ∧ m.toInt < 2 ^ 63 - 1 := by
  have hle := m.le_toInt
  have hmin : Int64.minValue.toInt = -2 ^ 63 := by decide
  have hmax : Int64.maxValue.toInt = 2 ^ 63 - 1 := by decide
  rw [Int64.lt_iff_toInt_lt]
  unfold Int64.ofIntClamp
  split_ifs with hl hr
  · rw [Int64.ofIntLE, Int64.toInt_ofInt_of_le (by omega) (by omega)]
    omega
  · omega
  · omega

theorem lt_saturatingMul (m a b : Int64) :
    m < saturatingMul a b ↔ m.toInt < a.toInt * b.toInt ∧ m.toInt < 2 ^ 63 - 1 := lt_ofIntClamp m _

end MatchingEngine.Sidecar
