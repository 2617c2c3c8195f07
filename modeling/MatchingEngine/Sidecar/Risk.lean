import MatchingEngine.Sidecar.Integers
import Mathlib.Data.Finset.Lattice.Lemmas
import Mathlib.Tactic.Linarith

/-!
# The sidecar's pre-trade check

`rust/src/risk.rs`: four checks of an order in a fixed order (the symbol, the size, the
notional and the collar around a reference price), and the first that fails is reported.

The module doc says what they compare, in numbers that a price times a quantity has no
bound on. `check_answers_iff` says exactly where the code's fixed-width arithmetic answers
as the numbers would. It does not where a quantity from `2 ^ 63` on is read as a negative
number, where a product is cut down to a limit that is the greatest `i64`, and where the
distance to the reference price has no `i64`.
-/

namespace MatchingEngine.Sidecar

open MatchingEngine.Foundation

/-! ### The code -/

/-- `enum RiskReject`. -/
inductive RiskReject where
  /-- `SymbolNotAllowed`. -/
  | symbolNotAllowed
  /-- `OrderTooLarge`. -/
  | orderTooLarge (qty limit : UInt64)
  /-- `NotionalTooLarge`. -/
  | notionalTooLarge (notional limit : Int64)
  /-- `PriceOutsideCollar`. -/
  | priceOutsideCollar (price reference : Int64) (collarBps : UInt32)
  deriving DecidableEq

/-- `struct RiskLimits`. -/
structure RiskLimits where
  /-- `max_order_qty`. -/
  maxOrderQty : UInt64
  /-- `max_notional`. -/
  maxNotional : Int64
  /-- `price_collar_bps`. -/
  priceCollarBps : UInt32
  /-- `allowed_symbols`; with none, every symbol is allowed. -/
  allowedSymbols : Finset String

/-- `RiskLimits::new`. -/
def RiskLimits.new (maxOrderQty : UInt64) (maxNotional : Int64) (priceCollarBps : UInt32) : RiskLimits where
  maxOrderQty := maxOrderQty
  maxNotional := maxNotional
  priceCollarBps := priceCollarBps
  allowedSymbols := ∅

/-- `RiskLimits::allow_symbol`. -/
def RiskLimits.allowSymbol (limits : RiskLimits) (symbol : String) : RiskLimits :=
  { limits with allowedSymbols := insert symbol limits.allowedSymbols }

/-- `struct RiskCheckInput`. -/
structure RiskCheckInput where
  /-- `symbol`. -/
  symbol : String
  /-- `qty`. -/
  qty : UInt64
  /-- `price`. -/
  price : Int64

/-- The last check of `check`, for a reference price above 0. -/
def checkCollar (limits : RiskLimits) (input : RiskCheckInput) (reference : Int64) :
    Except Panic (Except RiskReject Unit) := do
  let difference ← i64Op (input.price.toInt - reference.toInt)
  let diff ← i128Op difference.toInt.natAbs
  let magnitude ← i128Op reference.toInt.natAbs
  let scaled ← i128Op (magnitude * limits.priceCollarBps.toNat)
  let allowed ← i128Op (scaled.tdiv 10000)
  if allowed < diff then
    return .error (.priceOutsideCollar input.price reference limits.priceCollarBps)
  else
    return .ok ()

/-- The end of `check`: the collar, where there is a reference price above 0. -/
def checkReference (limits : RiskLimits) (input : RiskCheckInput) (referencePrice : Option Int64) :
    Except Panic (Except RiskReject Unit) :=
  match referencePrice with
  | some reference => if 0 < reference then checkCollar limits input reference else .ok (.ok ())
  | none => .ok (.ok ())

/-- `check`. -/
def check (limits : RiskLimits) (input : RiskCheckInput) (referencePrice : Option Int64) :
    Except Panic (Except RiskReject Unit) :=
  if limits.allowedSymbols ≠ ∅ ∧ input.symbol ∉ limits.allowedSymbols then
    .ok (.error .symbolNotAllowed)
  else if limits.maxOrderQty < input.qty then
    .ok (.error (.orderTooLarge input.qty limits.maxOrderQty))
  else
    let notional := saturatingMul input.price (asI64 input.qty)
    if limits.maxNotional < notional then
      .ok (.error (.notionalTooLarge notional limits.maxNotional))
    else
      checkReference limits input referencePrice

/-! ### The checks in numbers -/

section Exact

variable (limits : RiskLimits) (input : RiskCheckInput) (referencePrice : Option Int64)

/-- The symbol is on the list, or there is no list. -/
def SymbolOk : Prop := limits.allowedSymbols = ∅ ∨ input.symbol ∈ limits.allowedSymbols

/-- The symbols that have been added are on the list. -/
theorem allowedSymbols_foldl (limits : RiskLimits) (symbols : List String) :
    (symbols.foldl RiskLimits.allowSymbol limits).allowedSymbols = limits.allowedSymbols ∪ symbols.toFinset := by
  induction symbols generalizing limits with
  | nil => simp
  | cons symbol symbols ih =>
    rw [List.foldl_cons, ih, RiskLimits.allowSymbol, List.toFinset_cons, Finset.insert_union, Finset.union_insert]

/-- **The list of symbols** lets through what has been added to it, and everything if nothing has. -/
theorem symbolOk_foldl (maxOrderQty : UInt64) (maxNotional : Int64) (priceCollarBps : UInt32) (symbols : List String) :
    SymbolOk (symbols.foldl RiskLimits.allowSymbol (.new maxOrderQty maxNotional priceCollarBps)) input ↔
      symbols = [] ∨ input.symbol ∈ symbols := by
  rw [SymbolOk, allowedSymbols_foldl, RiskLimits.new, Finset.empty_union, List.toFinset_eq_empty_iff, List.mem_toFinset]

/-- The quantity is within its limit. -/
def SizeOk : Prop := input.qty.toNat ≤ limits.maxOrderQty.toNat

/-- The price times the quantity is within its limit. -/
def NotionalOk : Prop := input.price.toInt * input.qty.toNat ≤ limits.maxNotional.toInt

/-- The price is at most the allowed distance from a reference price. -/
def Near (reference : Int64) : Prop :=
  |input.price.toInt - reference.toInt| ≤ reference.toInt * limits.priceCollarBps.toNat / 10000

instance (reference : Int64) : Decidable (Near limits input reference) := inferInstanceAs (Decidable (_ ≤ _))

/-- The price is near the reference price, if there is one above 0. -/
def CollarOk : Prop := ∀ reference ∈ referencePrice, 0 < reference.toInt → Near limits input reference

/-- What the collar calls for. -/
def CollarAnswers (answer : Except RiskReject Unit) : Prop :=
  (¬ CollarOk limits input referencePrice ∧ ∃ reference ∈ referencePrice,
    answer = .error (.priceOutsideCollar input.price reference limits.priceCollarBps)) ∨
  (CollarOk limits input referencePrice ∧ answer = .ok ())

/-- The answer that the numbers call for: the error of the first check that fails. -/
def Answers (answer : Except RiskReject Unit) : Prop :=
  (¬ SymbolOk limits input ∧ answer = .error .symbolNotAllowed) ∨
  (SymbolOk limits input ∧ ¬ SizeOk limits input ∧
    answer = .error (.orderTooLarge input.qty limits.maxOrderQty)) ∨
  (SymbolOk limits input ∧ SizeOk limits input ∧ ¬ NotionalOk limits input ∧
    ∃ notional, answer = .error (.notionalTooLarge notional limits.maxNotional)) ∨
  (SymbolOk limits input ∧ SizeOk limits input ∧ NotionalOk limits input ∧
    CollarAnswers limits input referencePrice answer)

/-- The cast and the cut of the product change no decision about the notional: a quantity
below `2 ^ 63` is itself, and its product is cut only if the limit is the greatest `i64`;
from there on the code multiplies with a negative number. -/
def NotionalExact : Prop :=
  if input.qty.toNat < 2 ^ 63 then
    input.price.toInt * input.qty.toNat < 2 ^ 63 ∨ limits.maxNotional.toInt < 2 ^ 63 - 1
  else
    input.price.toInt = 0 ∨
    (0 < input.price.toInt ∧ limits.maxNotional.toInt < input.price.toInt * (input.qty.toNat - 2 ^ 64)) ∨
    (input.price.toInt < 0 ∧ (input.price.toInt * (input.qty.toNat - 2 ^ 64) ≤ limits.maxNotional.toInt ∨
      limits.maxNotional.toInt = 2 ^ 63 - 1))

/-- The orders on which the fixed widths do no harm: an earlier check refuses the order,
or the notional is decided as its exact value would be, and where the order passes it,
the distance to the reference price has an `i64`. -/
def Representable : Prop :=
  SymbolOk limits input → SizeOk limits input → NotionalExact limits input ∧
    (NotionalOk limits input → ∀ reference ∈ referencePrice, 0 < reference.toInt →
      -2 ^ 63 ≤ input.price.toInt - reference.toInt)

end Exact

variable {limits : RiskLimits} {input : RiskCheckInput} {referencePrice : Option Int64}

/-! ### The notional -/

/-- What the code decides about the notional. -/
theorem notional_lt_iff :
    limits.maxNotional < saturatingMul input.price (asI64 input.qty) ↔
      limits.maxNotional.toInt < input.price.toInt * signed input.qty ∧
        limits.maxNotional.toInt < 2 ^ 63 - 1 := by
  rw [lt_saturatingMul, toInt_asI64]

/-- **The notional is decided exactly where the condition says.** -/
theorem notionalExact_iff :
    NotionalExact limits input ↔
      (limits.maxNotional < saturatingMul input.price (asI64 input.qty) ↔ ¬ NotionalOk limits input) := by
  have hmax := limits.maxNotional.toInt_lt
  have hmin := limits.maxNotional.le_toInt
  have hqty := input.qty.toNat_lt
  rw [notional_lt_iff, NotionalOk, NotionalExact, signed]
  by_cases hq : input.qty.toNat < 2 ^ 63
  · rw [if_pos hq, if_pos hq]
    generalize input.price.toInt * (input.qty.toNat : ℤ) = product
    omega
  · rw [if_neg hq, if_neg hq]
    have hbig : (2 ^ 63 : ℤ) ≤ input.qty.toNat := by exact_mod_cast not_lt.mp hq
    have hneg : (input.qty.toNat : ℤ) - 2 ^ 64 < 0 := by omega
    rcases lt_trichotomy input.price.toInt 0 with hp | hp | hp
    · -- the exact product is below every limit
      have hexact : input.price.toInt * (input.qty.toNat : ℤ) ≤ -2 ^ 63 := by nlinarith
      generalize input.price.toInt * (input.qty.toNat : ℤ) = product at *
      generalize input.price.toInt * ((input.qty.toNat : ℤ) - 2 ^ 64) = wrapped
      omega
    · rw [hp]
      omega
    · -- the exact product is above every limit, and the code's is negative
      have hexact : (2 ^ 63 : ℤ) ≤ input.price.toInt * input.qty.toNat := by nlinarith
      have hcode : input.price.toInt * ((input.qty.toNat : ℤ) - 2 ^ 64) < 0 := mul_neg_of_pos_of_neg hp hneg
      generalize input.price.toInt * (input.qty.toNat : ℤ) = product at *
      generalize input.price.toInt * ((input.qty.toNat : ℤ) - 2 ^ 64) = wrapped at *
      omega

/-! ### The collar -/

theorem i128Op_of_natAbs {x : ℤ} (h : x.natAbs < 2 ^ 127) : i128Op x = .ok x := if_pos (by omega)

/-- The collar check returns unless the difference of the prices has no `i64`, and then it
compares the distance with the allowed one. -/
theorem checkCollar_eq {reference : Int64} (hpos : 0 < reference.toInt) :
    checkCollar limits input reference =
      if -2 ^ 63 ≤ input.price.toInt - reference.toInt then
        if Near limits input reference then .ok (.ok ())
        else .ok (.error (.priceOutsideCollar input.price reference limits.priceCollarBps))
      else .error .overflow := by
  have hprice := inI64_toInt input.price
  have hrefer := inI64_toInt reference
  have hbps : limits.priceCollarBps.toNat < 2 ^ 32 := limits.priceCollarBps.toNat_lt
  unfold InI64 at hprice hrefer
  by_cases hfits : -2 ^ 63 ≤ input.price.toInt - reference.toInt
  · have hin : InI64 (input.price.toInt - reference.toInt) := ⟨hfits, by omega⟩
    have habs : ((reference.toInt.natAbs : ℕ) : ℤ) = reference.toInt := by omega
    have hdiff : ((Int.natAbs (input.price.toInt - reference.toInt) : ℕ) : ℤ) =
        |input.price.toInt - reference.toInt| := Int.natCast_natAbs _
    -- none of the `i128` operations can leave its type
    have hnonneg : 0 ≤ reference.toInt * (limits.priceCollarBps.toNat : ℤ) := by positivity
    have hscaled : reference.toInt * (limits.priceCollarBps.toNat : ℤ) < 2 ^ 63 * 2 ^ 32 := by nlinarith
    have hallowed : (reference.toInt * (limits.priceCollarBps.toNat : ℤ)).tdiv 10000 =
        reference.toInt * (limits.priceCollarBps.toNat : ℤ) / 10000 := Int.tdiv_eq_ediv_of_nonneg hnonneg
    rw [checkCollar, i64Op_of_inI64 hin, ok_bind, toInt_ofInt hin, i128Op_of_natAbs (by omega), ok_bind,
      i128Op_of_natAbs (by omega), ok_bind, habs, i128Op_of_natAbs (by omega), ok_bind, hallowed,
      i128Op_of_natAbs (by omega), ok_bind, hdiff, if_pos hfits]
    by_cases hnear : Near limits input reference
    · rw [if_pos hnear, if_neg (not_lt.mpr hnear)]
      rfl
    · rw [if_neg hnear, if_pos (not_le.mp hnear)]
      rfl
  · have hout : ¬ InI64 (input.price.toInt - reference.toInt) := fun h => hfits h.1
    rw [checkCollar, i64Op_of_not hout, error_bind, if_neg hfits]

theorem toInt_pos {a : Int64} : 0 < a ↔ 0 < a.toInt := Int64.lt_iff_toInt_lt

theorem checkReference_answers_iff (limits : RiskLimits) (input : RiskCheckInput) (referencePrice : Option Int64) :
    (∃ answer, checkReference limits input referencePrice = .ok answer ∧
      CollarAnswers limits input referencePrice answer) ↔
    ∀ reference ∈ referencePrice, 0 < reference.toInt → -2 ^ 63 ≤ input.price.toInt - reference.toInt := by
  cases referencePrice with
  | none => simp [checkReference, CollarAnswers, CollarOk]
  | some reference =>
    rw [checkReference]
    by_cases hpos : 0 < reference.toInt
    · have hok : CollarOk limits input (some reference) ↔ Near limits input reference := by simp [CollarOk, hpos]
      rw [if_pos (toInt_pos.mpr hpos), checkCollar_eq hpos]
      by_cases hfits : -2 ^ 63 ≤ input.price.toInt - reference.toInt
      · have hall : ∀ r ∈ some reference, 0 < r.toInt → -2 ^ 63 ≤ input.price.toInt - r.toInt := by
          rintro r ⟨⟩ _
          exact hfits
        rw [if_pos hfits]
        refine iff_of_true ?_ hall
        by_cases hnear : Near limits input reference
        · exact ⟨_, if_pos hnear, Or.inr ⟨hok.mpr hnear, rfl⟩⟩
        · exact ⟨_, if_neg hnear, Or.inl ⟨fun h => hnear (hok.mp h), reference, rfl, rfl⟩⟩
      · rw [if_neg hfits]
        refine iff_of_false ?_ fun h => hfits (h reference rfl hpos)
        rintro ⟨answer, h, _⟩
        exact nomatch h
    · rw [if_neg fun h => hpos (toInt_pos.mp h)]
      simp [CollarAnswers, CollarOk, hpos]

/-- The collar check never complains of a notional. -/
theorem checkReference_ne_notional {notional limit : Int64} :
    checkReference limits input referencePrice ≠ .ok (.error (.notionalTooLarge notional limit)) := by
  cases referencePrice with
  | none => simp [checkReference]
  | some reference =>
    rw [checkReference]
    by_cases hpos : 0 < reference.toInt
    · rw [if_pos (toInt_pos.mpr hpos), checkCollar_eq hpos]
      split_ifs <;> simp
    · rw [if_neg fun h => hpos (toInt_pos.mp h)]
      simp

/-! ### The whole check -/

theorem check_of_not_symbolOk (h : ¬ SymbolOk limits input) :
    check limits input referencePrice = .ok (.error .symbolNotAllowed) := if_pos (not_or.mp h)

theorem check_of_not_sizeOk (hsym : SymbolOk limits input) (h : ¬ SizeOk limits input) :
    check limits input referencePrice = .ok (.error (.orderTooLarge input.qty limits.maxOrderQty)) := by
  rw [check, if_neg fun hn => not_or.mpr hn hsym, if_pos (UInt64.lt_iff_toNat_lt.mpr (not_le.mp h))]

/-- Past the first two checks it is the notional that decides. -/
theorem check_of_sizeOk (hsym : SymbolOk limits input) (hsize : SizeOk limits input) :
    check limits input referencePrice =
      if limits.maxNotional < saturatingMul input.price (asI64 input.qty) then
        .ok (.error (.notionalTooLarge (saturatingMul input.price (asI64 input.qty)) limits.maxNotional))
      else checkReference limits input referencePrice := by
  rw [check, if_neg fun hn => not_or.mpr hn hsym,
    if_neg fun hlt => not_le.mpr (UInt64.lt_iff_toNat_lt.mp hlt) hsize]

/-- **The pre-trade check answers as the numbers call for exactly on the representable
orders.** On all others it accepts what a limit forbids, refuses what none does, or leaves
its type. -/
theorem check_answers_iff (limits : RiskLimits) (input : RiskCheckInput) (referencePrice : Option Int64) :
    (∃ answer, check limits input referencePrice = .ok answer ∧ Answers limits input referencePrice answer) ↔
      Representable limits input referencePrice := by
  by_cases hsym : SymbolOk limits input
  swap
  · exact iff_of_true ⟨_, check_of_not_symbolOk hsym, Or.inl ⟨hsym, rfl⟩⟩ fun h => absurd h hsym
  by_cases hsize : SizeOk limits input
  swap
  · exact iff_of_true ⟨_, check_of_not_sizeOk hsym hsize, Or.inr (Or.inl ⟨hsym, hsize, rfl⟩)⟩
      fun _ h => absurd h hsize
  rw [check_of_sizeOk hsym hsize]
  simp only [Representable, Answers, hsym, hsize, forall_const, not_true_eq_false, false_and, true_and, false_or,
    notionalExact_iff]
  by_cases hlt : limits.maxNotional < saturatingMul input.price (asI64 input.qty)
  · -- the code refuses the notional: right if it is too large
    rw [if_pos hlt]
    by_cases hok : NotionalOk limits input
    · simp [hlt, hok, CollarAnswers]
    · simp [hlt, hok]
  · -- the code accepts the notional
    rw [if_neg hlt]
    by_cases hok : NotionalOk limits input
    · simpa [hlt, hok] using
        checkReference_answers_iff limits input referencePrice
    · simp only [hlt, hok, not_false_eq_true, false_and, or_false, true_and, iff_true]
      refine iff_of_false ?_ (by simp)
      rintro ⟨answer, h, notional, rfl⟩
      exact checkReference_ne_notional h

/-- Limits on the notional and the collar alone. -/
def wideLimits : RiskLimits := .new 18446744073709551615 1000000000 500

/-- `2 ^ 63` shares at $585. -/
def hugeOrder : RiskCheckInput := ⟨"AAPL", 9223372036854775808, 5850000⟩

/-- A quantity of `2 ^ 63` passes a limit of $100000 on the notional, and the least price
leaves its type at the collar. -/
theorem check_admits_huge_order :
    (∃ answer, check wideLimits hugeOrder none = .ok answer ∧ ¬ Answers wideLimits hugeOrder none answer) ∧
      check wideLimits ⟨"AAPL", 1, Int64.minValue⟩ (some 5850000) = .error .overflow := by
  refine ⟨⟨.ok (), by decide, ?_⟩, by decide⟩
  have hnotional : ¬ NotionalOk wideLimits hugeOrder := by
    unfold NotionalOk
    decide
  rintro (⟨_, h⟩ | ⟨_, _, h⟩ | ⟨_, _, _, _, h⟩ | ⟨_, _, h, _⟩)
  · exact nomatch h
  · exact nomatch h
  · exact nomatch h
  · exact hnotional h

end MatchingEngine.Sidecar
