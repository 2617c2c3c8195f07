import MatchingEngine.Sidecar.Text
import Mathlib.Tactic.Linarith

/-!
# The price of a FIX order

`parse_price` of `rust/src/fix.rs`: a price text is split at its first point, the fraction
is filled up and cut to four bytes, the two parts are read as signed numbers, and the ticks
are put together from them.

On a decimal number whose ticks fit an `i64` the function does what its comment says. The
two parts are read by themselves and put together unchecked, so that it also accepts a
fraction that begins with a sign or goes on after four digits with anything, panics on a cut
inside a character, and overflows where the ticks have no `i64`. `parsePrice_right_iff` says
that these are all the texts on which it goes wrong.
-/

namespace MatchingEngine.Sidecar

open MatchingEngine.Foundation

/-! ### The code -/

/-- `enum FixParseError`. -/
inductive FixParseError where
  /-- `Empty`. -/
  | empty
  /-- `MissingTag`. -/
  | missingTag (tag : UInt32)
  /-- `UnknownMsgType`. -/
  | unknownMsgType (text : Str)
  /-- `BadInteger`. -/
  | badInteger (tag : UInt32)
  /-- `BadPrice`. -/
  | badPrice (tag : UInt32)
  /-- `BadSide`. -/
  | badSide (text : Str)
  /-- `BadOrdType`. -/
  | badOrdType (text : Str)
  deriving DecidableEq

/-- `frac_raw` in `parse_price`. -/
def fracRaw (raw : Str) : Str := (after '.' raw).getD []

/-- The loop of `parse_price` that fills up the fraction. -/
def pushZeros (frac : Str) : Str := if len frac < 4 then pushZeros (frac ++ ['0']) else frac
termination_by 4 - len frac
decreasing_by
  have hzero : Char.utf8Size '0' = 1 := rfl
  simp only [len_append, len_cons, len_nil, hzero]
  omega

/-- `whole_ticks * 10_000 + sign * frac_ticks` in `parse_price`. -/
def ticksOf (whole : Str) (wholeTicks fracTicks : Int64) : Except Panic Int64 := do
  let sign : ℤ := if whole.head? = some '-' then -1 else 1
  let scaled ← i64Op (wholeTicks.toInt * 10000)
  let signed ← i64Op (sign * fracTicks.toInt)
  i64Op (scaled.toInt + signed.toInt)

/-- `parse_price`. -/
def parsePrice (raw : Str) : Except Panic (Except FixParseError Int64) := do
  let whole := before '.' raw
  let frac ← truncate (pushZeros (fracRaw raw)) 4
  match parseI64 whole with
  | none => return .error (.badPrice 44)
  | some wholeTicks =>
    match parseI64 frac with
    | none => return .error (.badPrice 44)
    | some fracTicks => return .ok (← ticksOf whole wholeTicks fracTicks)

/-! ### Decimal numbers -/

/-- A decimal number as it is written: an optional sign, one or more digits, and optionally
a point with any number of digits after it. -/
structure Decimal where
  /-- The sign. -/
  sign : Sign
  /-- The digits before the point. -/
  whole : Str
  /-- The digits after the point, if there is one. -/
  frac : Option Str
  whole_ne : whole ≠ []
  whole_digits : AllDigits whole
  frac_digits : ∀ f ∈ frac, AllDigits f

namespace Decimal

/-- The text of a decimal number. -/
def text (d : Decimal) : Str :=
  d.sign.text ++ d.whole ++
    match d.frac with
    | none => []
    | some f => '.' :: f

/-- The digits after the point. -/
def fraction (d : Decimal) : Str := d.frac.getD []

/-- Its value times 10000, truncated toward zero: the digits of the text write an integer
that is divided by a power of 10 for the places after the point. -/
def ticks (d : Decimal) : ℤ :=
  (d.sign.factor * number (d.whole ++ d.fraction) * 10000).tdiv (10 ^ d.fraction.length)

end Decimal

/-- The function is right on a text: it returns, and it returns the ticks of the decimal
number that the text is, if it is one and its ticks fit, and the error otherwise. -/
def PriceRight (raw : Str) : Prop :=
  ∃ result, parsePrice raw = .ok result ∧
    (∀ t : Int64, result = .ok t ↔ ∃ d : Decimal, d.text = raw ∧ d.ticks = t.toInt) ∧
    ∀ e, result = .error e → e = .badPrice 44

/-- Four bytes end at the end of a character, or there are fewer. -/
def CutBetween (frac : Str) : Prop := len frac < 4 ∨ ∃ p q, frac = p ++ q ∧ len p = 4

/-- The texts with a fraction that does no harm. The cut to four bytes does not meet the
middle of a character, and where the text before the point and the four places after it both
are numbers of the type, the fraction has digits only and the digits before the point with
the four places still are one. -/
def PlainFraction (raw : Str) : Prop :=
  CutBetween (fracRaw raw) ∧
    ((parseI64 (before '.' raw)).isSome → (parseI64 (toPlaces 4 (fracRaw raw))).isSome →
      AllDigits (fracRaw raw) ∧ (parseI64 (before '.' raw ++ toPlaces 4 (fracRaw raw))).isSome)

/-! ### The places -/

section Places

variable {frac p : Str}

/-- What the loop adds. -/
theorem pushZeros_eq (frac : Str) : pushZeros frac = frac ++ List.replicate (4 - len frac) '0' := by
  induction frac using pushZeros.induct with
  | case1 frac hlt ih =>
    have hzero : Char.utf8Size '0' = 1 := rfl
    have hone : 4 - len frac = 1 + (4 - len (frac ++ ['0'])) := by
      simp only [len_append, len_cons, len_nil, hzero]
      omega
    rw [pushZeros, if_pos hlt, ih, hone, List.replicate_add, List.append_assoc, List.replicate_one]
  | case2 frac hge =>
    rw [pushZeros, if_neg hge, Nat.sub_eq_zero_of_le (not_lt.mp hge), List.replicate_zero, List.append_nil]

theorem len_pushZeros : 4 ≤ len (pushZeros frac) := by
  rw [pushZeros_eq, len_append, len_zeros]
  omega

/-- A short fraction is filled up and not cut. -/
theorem truncate_pushZeros_of_lt (h : len frac < 4) :
    truncate (pushZeros frac) 4 = .ok (frac ++ List.replicate (4 - len frac) '0') := by
  have hfour : len (frac ++ List.replicate (4 - len frac) '0') = 4 := by
    rw [len_append, len_zeros]
    omega
  have hcut := truncate_append (p := frac ++ List.replicate (4 - len frac) '0') (q := [])
  rw [pushZeros_eq]
  rwa [List.append_nil, hfour] at hcut

theorem pushZeros_of_ge (h : 4 ≤ len frac) : pushZeros frac = frac := by
  rw [pushZeros, if_neg (not_lt.mpr h)]

/-- The cut succeeds exactly where it meets no character in the middle. -/
theorem cutBetween_iff : CutBetween frac ↔ ∃ p, truncate (pushZeros frac) 4 = .ok p := by
  constructor
  · rintro (hlt | ⟨p, q, rfl, hp⟩)
    · exact ⟨_, truncate_pushZeros_of_lt hlt⟩
    · refine ⟨p, ?_⟩
      rw [pushZeros_of_ge (by rw [len_append]; omega), ← hp, truncate_append]
  · rintro ⟨p, hp⟩
    rcases Nat.lt_or_ge (len frac) 4 with hlt | hge
    · exact .inl hlt
    · rw [pushZeros_of_ge hge] at hp
      obtain ⟨q, hfrac, hlen⟩ := truncate_ok hge hp
      exact .inr ⟨p, q, hfrac, hlen⟩

/-- Four bytes of characters of one byte each are the places. -/
theorem truncate_of_ascii (h : Ascii (toPlaces 4 frac)) :
    truncate (pushZeros frac) 4 = .ok (toPlaces 4 frac) := by
  rcases Nat.lt_or_ge frac.length 4 with hlt | hge
  · have hplaces : toPlaces 4 frac = frac ++ List.replicate (4 - frac.length) '0' := by
      rw [toPlaces, List.take_of_length_le]
      rw [List.length_append, List.length_replicate]
      omega
    have hlen : len frac = frac.length :=
      Ascii.len_eq (h.mono (hplaces ▸ List.subset_append_left _ _))
    rw [truncate_pushZeros_of_lt (hlen ▸ hlt), hplaces, hlen]
  · have hplaces : toPlaces 4 frac = frac.take 4 := by
      rw [toPlaces, Nat.sub_eq_zero_of_le hge, List.replicate_zero, List.append_nil]
    have hlen : len (frac.take 4) = 4 := by
      rw [Ascii.len_eq (hplaces ▸ h), List.length_take, Nat.min_eq_left hge]
    have hcut := truncate_append (p := frac.take 4) (q := frac.drop 4)
    rw [List.take_append_drop, hlen] at hcut
    rw [pushZeros_of_ge (hge.trans length_le_len), hcut, hplaces]

/-- Where the cut gives characters of one byte each, it gives the places. -/
theorem eq_toPlaces (h : truncate (pushZeros frac) 4 = .ok p) (hp : Ascii p) : p = toPlaces 4 frac := by
  obtain ⟨q, hq, hlen⟩ := truncate_ok len_pushZeros h
  have hlength : p.length = 4 := by rw [← hp.len_eq, hlen]
  have htake : p = (pushZeros frac).take 4 := by rw [hq, List.take_left' hlength]
  rcases Nat.lt_or_ge frac.length 4 with hlt | hge
  · -- the four characters begin with the fraction
    have hsub : frac ⊆ p := by
      rw [htake, pushZeros_eq, List.take_append, List.take_of_length_le hlt.le]
      exact List.subset_append_left _ _
    rw [htake, pushZeros_eq, toPlaces, (hp.mono hsub).len_eq]
  · rw [htake, pushZeros_of_ge (hge.trans length_le_len), toPlaces, Nat.sub_eq_zero_of_le hge,
      List.replicate_zero, List.append_nil]

end Places

/-! ### The parts of a decimal number -/

namespace Decimal

variable (d : Decimal)

theorem allDigits_fraction : AllDigits d.fraction := by
  cases hf : d.frac with
  | none =>
    rw [fraction, hf]
    exact allDigits_nil
  | some f =>
    rw [fraction, hf]
    exact d.frac_digits f hf

/-- There is no point before the point. -/
theorem point_notMem : '.' ∉ d.sign.text ++ d.whole := by
  rw [List.mem_append, not_or]
  constructor
  · cases d.sign <;> decide
  · exact fun h => absurd (d.whole_digits _ h) (by decide)

theorem before_text : before '.' d.text = d.sign.text ++ d.whole := by
  unfold text
  cases d.frac with
  | none => rw [List.append_nil, before_of_notMem d.point_notMem]
  | some f => exact before_append d.point_notMem

theorem fracRaw_text : fracRaw d.text = d.fraction := by
  unfold fracRaw text fraction
  cases d.frac with
  | none => rw [List.append_nil, after_of_notMem d.point_notMem]
  | some f => rw [after_append d.point_notMem]

/-- The ticks are what the digits before the point and the four places write. -/
theorem ticks_eq : d.ticks = d.sign.factor * number (d.whole ++ toPlaces 4 d.fraction) := by
  have hscaled := number_scaled d.whole 4 d.allDigits_fraction
  have hplaces : number (d.whole ++ toPlaces 4 d.fraction) =
      number d.whole * 10 ^ 4 + number (toPlaces 4 d.fraction) := by
    rw [number_append, length_toPlaces]
  have hnat : ((number (d.whole ++ d.fraction) * 10000 : ℕ) : ℤ).tdiv (10 ^ d.fraction.length) =
      number (d.whole ++ toPlaces 4 d.fraction) := by
    rw [hplaces, ← hscaled]
    push_cast [Int.tdiv_eq_ediv_of_nonneg]
    rw [Int.tdiv_eq_ediv_of_nonneg (by positivity)]
  unfold ticks
  push_cast at hnat
  cases d.sign with
  | none => simpa [Sign.factor] using hnat
  | plus => simpa [Sign.factor] using hnat
  | minus =>
    simp only [Sign.factor, neg_one_mul, Int.neg_mul, Int.neg_tdiv]
    rw [hnat]

/-- The ticks as a signed number. -/
theorem signedValue_places :
    signedValue (before '.' d.text ++ toPlaces 4 (fracRaw d.text)) = some d.ticks := by
  rw [before_text, fracRaw_text, List.append_assoc, ticks_eq]
  refine signedValue_sign d.sign (fun h => d.whole_ne (List.append_eq_nil_iff.mp h).1) ?_
  exact allDigits_append.mpr ⟨d.whole_digits, d.allDigits_fraction.toPlaces 4⟩

theorem signedValue_before : signedValue (before '.' d.text) = some (d.sign.factor * number d.whole) := by
  rw [before_text]
  exact signedValue_sign d.sign d.whole_ne d.whole_digits

end Decimal

/-- **The decimal numbers among the texts.** A text is one with these ticks exactly if it has
a number before the point and only digits after it, and the digits before the point with
four places write the ticks. -/
theorem decimal_iff {raw : Str} {x : ℤ} :
    (∃ d : Decimal, d.text = raw ∧ d.ticks = x) ↔
      (signedValue (before '.' raw)).isSome ∧ AllDigits (fracRaw raw) ∧
        signedValue (before '.' raw ++ toPlaces 4 (fracRaw raw)) = some x := by
  constructor
  · rintro ⟨d, rfl, rfl⟩
    refine ⟨?_, ?_, d.signedValue_places⟩
    · rw [d.signedValue_before, Option.isSome_some]
    · rw [d.fracRaw_text]
      exact d.allDigits_fraction
  · rintro ⟨hwhole, hfrac, hx⟩
    obtain ⟨y, hy⟩ := Option.isSome_iff_exists.mp hwhole
    obtain ⟨sign, w, hbefore, hne, hdigits, -⟩ := signedValue_eq_some hy
    have htext : ∃ d : Decimal, d.text = raw := by
      rcases split_eq '.' raw with ⟨-, hraw⟩ | ⟨q, hafter, hraw⟩
      · refine ⟨⟨sign, w, none, hne, hdigits, fun _ h => nomatch h⟩, ?_⟩
        rw [Decimal.text, List.append_nil, ← hbefore, ← hraw]
      · have hq : AllDigits q := by rwa [fracRaw, hafter] at hfrac
        refine ⟨⟨sign, w, some q, hne, hdigits, fun f h => Option.some.inj h ▸ hq⟩, ?_⟩
        rw [Decimal.text, ← hbefore, ← hraw]
    obtain ⟨d, rfl⟩ := htext
    exact ⟨d, rfl, Option.some.inj (d.signedValue_places.symm.trans hx)⟩

/-! ### The arithmetic -/

section Arithmetic

variable {raw p : Str} {w f : Int64}

/-- Without a number before the point, or without one in the four bytes, the price is refused. -/
theorem parsePrice_refused (hcut : truncate (pushZeros (fracRaw raw)) 4 = .ok p)
    (h : parseI64 (before '.' raw) = none ∨ parseI64 p = none) :
    parsePrice raw = .ok (.error (.badPrice 44)) := by
  unfold parsePrice
  rw [hcut]
  simp only [bind, Except.bind, pure, Except.pure]
  cases hw : parseI64 (before '.' raw) with
  | none => rfl
  | some w =>
    rcases h with h | h
    · rw [hw] at h
      exact nomatch h
    · simp only [h]

/-- With both numbers, the function ends with the arithmetic. -/
theorem parsePrice_numbers (hcut : truncate (pushZeros (fracRaw raw)) 4 = .ok p)
    (hw : parseI64 (before '.' raw) = some w) (hf : parseI64 p = some f) :
    parsePrice raw = (ticksOf (before '.' raw) w f).map .ok := by
  unfold parsePrice
  rw [hcut]
  simp only [bind, Except.bind, pure, Except.pure, hw, hf]
  cases ticksOf (before '.' raw) w f <;> rfl

/-- The cut fails in the middle of a character only, and the function with it. -/
theorem parsePrice_cut (h : ¬ CutBetween (fracRaw raw)) : parsePrice raw = .error .charBoundary := by
  rw [cutBetween_iff] at h
  cases hcut : truncate (pushZeros (fracRaw raw)) 4 with
  | ok p => exact absurd ⟨p, hcut⟩ h
  | error e =>
    unfold parsePrice
    rw [hcut, truncate_error hcut]
    rfl

variable {d : Decimal}

/-- The sign that the code reads off the text. -/
theorem sign_eq_factor (d : Decimal) :
    (if (before '.' d.text).head? = some '-' then -1 else 1 : ℤ) = d.sign.factor := by
  rw [d.before_text]
  cases hs : d.sign with
  | plus => rfl
  | minus => rfl
  | none =>
    cases hw : d.whole with
    | nil => exact absurd hw d.whole_ne
    | cons c rest =>
      have hc : c ≠ '-' := (ne_sign_of_isDigit (d.whole_digits c (hw ▸ List.mem_cons_self))).1
      simp [Sign.text, Sign.factor, hc]

/-- The four places are a number. -/
theorem parseI64_places {frac : Str} (h : AllDigits frac) :
    ∃ f : Int64, parseI64 (toPlaces 4 frac) = some f ∧ f.toInt = number (toPlaces 4 frac) := by
  have hdigits : AllDigits (toPlaces 4 frac) := h.toPlaces 4
  have hne : toPlaces 4 frac ≠ [] := List.ne_nil_of_length_pos (by rw [length_toPlaces]; decide)
  have hlt := hdigits.number_lt
  rw [length_toPlaces] at hlt
  have hin : InI64 (number (toPlaces 4 frac)) := by
    constructor <;> omega
  refine ⟨Int64.ofInt (number (toPlaces 4 frac)), ?_, toInt_ofInt hin⟩
  rw [parseI64_eq_some, toInt_ofInt hin]
  simpa [Sign.text, Sign.factor] using signedValue_sign .none hne hdigits

/-- The arithmetic leaves its type exactly where the ticks do: the whole part is scaled
first, on the side of 0 that the ticks are on. -/
theorem ticksOf_decimal (hw : w.toInt = d.sign.factor * number d.whole)
    (hf : f.toInt = number (toPlaces 4 d.fraction)) :
    ticksOf (before '.' d.text) w f = i64Op d.ticks := by
  have hlt := (d.allDigits_fraction.toPlaces 4).number_lt
  rw [length_toPlaces] at hlt
  have hticks : d.ticks = w.toInt * 10000 + d.sign.factor * f.toInt := by
    rw [d.ticks_eq, number_append, length_toPlaces, hw, hf]
    push_cast
    ring
  have hsigned : InI64 (d.sign.factor * f.toInt) := by
    rw [hf]
    cases d.sign <;> simp only [Sign.factor, InI64] <;> omega
  unfold ticksOf
  simp only [sign_eq_factor, bind, Except.bind]
  by_cases hscaled : InI64 (w.toInt * 10000)
  · rw [i64Op_of_inI64 hscaled, i64Op_of_inI64 hsigned]
    simp only [toInt_ofInt hscaled, toInt_ofInt hsigned, hticks]
  · have hout : ¬ InI64 d.ticks := by
      rw [hticks, hf]
      rw [hw] at hscaled ⊢
      cases hs : d.sign <;> simp only [hs, Sign.factor, InI64] at hscaled ⊢ <;> omega
    rw [i64Op_of_not hscaled, i64Op_of_not hout]

/-- **The function on a decimal number.** With a whole part that has an `i64`, the ticks are
what it returns, and it overflows where they have none. -/
theorem parsePrice_decimal (hw : (parseI64 (before '.' d.text)).isSome) :
    parsePrice d.text = (i64Op d.ticks).map .ok := by
  obtain ⟨w, hw⟩ := Option.isSome_iff_exists.mp hw
  obtain ⟨f, hf, hfvalue⟩ := parseI64_places d.allDigits_fraction
  have hascii : Ascii (toPlaces 4 (fracRaw d.text)) := by
    rw [d.fracRaw_text]
    exact ascii_of_allDigits (d.allDigits_fraction.toPlaces 4)
  have hwvalue : w.toInt = d.sign.factor * number d.whole :=
    Option.some.inj ((parseI64_eq_some.mp hw).symm.trans d.signedValue_before)
  rw [parsePrice_numbers (truncate_of_ascii hascii) hw (d.fracRaw_text ▸ hf), ticksOf_decimal hwvalue hfvalue]

/-- Ticks that have an `i64` have a whole part that has one. -/
theorem isSome_before (h : InI64 d.ticks) : (parseI64 (before '.' d.text)).isSome := by
  have hin : InI64 (d.sign.factor * number d.whole) := by
    rw [d.ticks_eq, number_append, length_toPlaces] at h
    push_cast at h
    have hwhole := Int.natCast_nonneg (number d.whole)
    generalize (number d.whole : ℤ) = whole at h hwhole ⊢
    cases hs : d.sign <;> simp only [hs, Sign.factor, InI64] at h ⊢ <;> omega
  rw [Option.isSome_iff_exists]
  exact ⟨Int64.ofInt _, parseI64_eq_some.mpr (by rw [toInt_ofInt hin, d.signedValue_before])⟩

/-- **A decimal number with ticks that fit is read as its ticks.** -/
theorem parsePrice_of_fits {t : Int64} (h : d.ticks = t.toInt) : parsePrice d.text = .ok (.ok t) := by
  have hin : InI64 d.ticks := h ▸ inI64_toInt t
  rw [parsePrice_decimal (isSome_before hin), i64Op_eq_ok.mpr h.symm]
  rfl

end Arithmetic

/-! ### Where the function is right -/

section Right

variable {raw p : Str}

/-- A decimal number with ticks that fit has only what the condition asks for. -/
theorem decimal_fits {t : Int64} (h : ∃ d : Decimal, d.text = raw ∧ d.ticks = t.toInt) :
    (parseI64 (before '.' raw)).isSome ∧ AllDigits (fracRaw raw) ∧
      (parseI64 (before '.' raw ++ toPlaces 4 (fracRaw raw))).isSome := by
  obtain ⟨-, hfrac, hplaces⟩ := decimal_iff.mp h
  obtain ⟨d, rfl, hticks⟩ := h
  refine ⟨isSome_before (hticks ▸ inI64_toInt t), hfrac, ?_⟩
  rw [Option.isSome_iff_exists]
  exact ⟨t, parseI64_eq_some.mpr hplaces⟩

/-- An error is right where the text is no decimal number with ticks that fit. -/
theorem priceRight_of_refused (h : parsePrice raw = .ok (.error (.badPrice 44)))
    (hno : ¬ ∃ t : Int64, ∃ d : Decimal, d.text = raw ∧ d.ticks = t.toInt) : PriceRight raw := by
  refine ⟨_, h, fun t => iff_of_false (fun ht => nomatch ht) fun hd => hno ⟨t, hd⟩, ?_⟩
  rintro e he
  exact (Except.error.inj he).symm

/-- A decimal number with ticks that fit is read right. -/
theorem priceRight_of_decimal {t : Int64} (h : ∃ d : Decimal, d.text = raw ∧ d.ticks = t.toInt) :
    PriceRight raw := by
  obtain ⟨d, rfl, ht⟩ := id h
  refine ⟨_, parsePrice_of_fits ht, fun t' => ?_, fun e he => nomatch he⟩
  constructor
  · intro ht'
    obtain rfl := Except.ok.inj ht'
    exact h
  · rintro ⟨d', htext, ht'⟩
    have hticks : d'.ticks = d.ticks := by
      have hsame := d'.signedValue_places
      rw [htext] at hsame
      exact Option.some.inj (hsame.symm.trans d.signedValue_places)
    have hsame : t = t' := Int64.toInt_inj.mp (by rw [← ht, ← ht', hticks])
    rw [hsame]

/-- Where the function is right and finds two numbers, the text is a decimal number with
ticks that fit. -/
theorem decimal_of_priceRight (h : PriceRight raw) {w f : Int64}
    (hcut : truncate (pushZeros (fracRaw raw)) 4 = .ok p) (hw : parseI64 (before '.' raw) = some w)
    (hf : parseI64 p = some f) : ∃ t : Int64, ∃ d : Decimal, d.text = raw ∧ d.ticks = t.toInt := by
  obtain ⟨result, hresult, hok, -⟩ := h
  rw [parsePrice_numbers hcut hw hf] at hresult
  cases hticks : ticksOf (before '.' raw) w f with
  | error e => rw [hticks] at hresult; exact nomatch hresult
  | ok t =>
    rw [hticks] at hresult
    exact ⟨t, (hok t).mp (Except.ok.inj hresult).symm⟩

/-- **Where `parse_price` is right.** On a text the function returns the ticks of the decimal
number that the text is, if it is one and its ticks have an `i64`, and refuses it otherwise,
exactly if the fraction of the text does no harm. -/
theorem parsePrice_right_iff (raw : Str) : PriceRight raw ↔ PlainFraction raw := by
  by_cases hbetween : CutBetween (fracRaw raw)
  · obtain ⟨p, hcut⟩ := cutBetween_iff.mp hbetween
    constructor
    · intro hright
      refine ⟨hbetween, fun hw hf => ?_⟩
      obtain ⟨w, hw⟩ := Option.isSome_iff_exists.mp hw
      obtain ⟨f, hf⟩ := Option.isSome_iff_exists.mp hf
      have hplaces := truncate_of_ascii (ascii_of_signedValue (parseI64_eq_some.mp hf))
      obtain ⟨t, hd⟩ := decimal_of_priceRight hright hplaces hw hf
      exact (decimal_fits hd).2
    · rintro ⟨-, hplain⟩
      by_cases hd : ∃ t : Int64, ∃ d : Decimal, d.text = raw ∧ d.ticks = t.toInt
      · exact hd.elim fun t ht => priceRight_of_decimal ht
      refine priceRight_of_refused (parsePrice_refused hcut ?_) hd
      -- two numbers would make the text a decimal number
      by_contra hnumbers
      rw [not_or] at hnumbers
      obtain ⟨w, hw⟩ := Option.ne_none_iff_exists'.mp hnumbers.1
      obtain ⟨f, hf⟩ := Option.ne_none_iff_exists'.mp hnumbers.2
      obtain rfl := eq_toPlaces hcut (ascii_of_signedValue (parseI64_eq_some.mp hf))
      obtain ⟨hdigits, hfits⟩ := hplain (Option.isSome_iff_exists.mpr ⟨w, hw⟩) (Option.isSome_iff_exists.mpr ⟨f, hf⟩)
      obtain ⟨t, ht⟩ := Option.isSome_iff_exists.mp hfits
      refine hd ⟨t, decimal_iff.mpr ⟨?_, hdigits, parseI64_eq_some.mp ht⟩⟩
      exact Option.isSome_iff_exists.mpr ⟨_, parseI64_eq_some.mp hw⟩
  · refine iff_of_false ?_ fun h => hbetween h.1
    rintro ⟨result, hresult, -⟩
    rw [parsePrice_cut hbetween] at hresult
    exact nomatch hresult

/-- The text `1.+5` is accepted, as 1.05. -/
theorem signed_fraction_accepted :
    parsePrice ['1', '.', '+', '5'] = .ok (.ok 10500) ∧ ¬ PriceRight ['1', '.', '+', '5'] := by
  have hcut : truncate (pushZeros (fracRaw ['1', '.', '+', '5'])) 4 = .ok ['+', '5', '0', '0'] := by
    rw [pushZeros_eq]
    rfl
  have hw : parseI64 (before '.' ['1', '.', '+', '5']) = some 1 := by decide
  have hf : parseI64 ['+', '5', '0', '0'] = some 500 := by decide
  constructor
  · rw [parsePrice_numbers hcut hw hf]
    rfl
  · intro hright
    obtain ⟨t, hd⟩ := decimal_of_priceRight hright hcut hw hf
    exact absurd (decimal_fits hd).2.1 (by decide)

end Right

end MatchingEngine.Sidecar
