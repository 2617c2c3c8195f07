import Mathlib.Algebra.Order.Ring.Nat
import Mathlib.Data.List.Basic
import Mathlib.Tactic.Positivity
import Mathlib.Tactic.Ring

/-!
# Digits

Texts of decimal digits and the numbers they write: how long a text is that writes a number,
how two texts are put together, and how a number with places after the point is scaled to a
fixed number of places. What a text writes is core's `Nat.ofDigitChars`, and the text of a
number is core's `Nat.toDigits`.
-/

namespace MatchingEngine.Foundation

/-- Every character is a decimal digit. -/
def AllDigits (text : List Char) : Prop := ∀ c ∈ text, c.isDigit

instance (text : List Char) : Decidable (AllDigits text) :=
  List.decidableBAll (fun c : Char => c.isDigit = true) text

/-- The number that a text of digits writes. -/
def number (text : List Char) : ℕ := Nat.ofDigitChars 10 text 0

section Numbers

variable {text rest : List Char} {n places : ℕ}

@[simp] theorem allDigits_nil : AllDigits [] := fun _ h => nomatch h

@[simp] theorem allDigits_cons {c : Char} : AllDigits (c :: text) ↔ c.isDigit ∧ AllDigits text :=
  List.forall_mem_cons

@[simp] theorem allDigits_append : AllDigits (text ++ rest) ↔ AllDigits text ∧ AllDigits rest :=
  List.forall_mem_append

theorem allDigits_zeros (n : ℕ) : AllDigits (List.replicate n '0') :=
  fun _ hc => List.eq_of_mem_replicate hc ▸ rfl

theorem AllDigits.take (h : AllDigits text) (n : ℕ) : AllDigits (text.take n) :=
  fun _ hc => h _ (List.mem_of_mem_take hc)

theorem AllDigits.drop (h : AllDigits text) (n : ℕ) : AllDigits (text.drop n) :=
  fun _ hc => h _ (List.mem_of_mem_drop hc)

/-- A digit writes less than 10. -/
theorem digit_lt {c : Char} (h : c.isDigit) : c.toNat - '0'.toNat < 10 := by
  simp only [Char.isDigit, Bool.and_eq_true, decide_eq_true_eq] at h
  have hle : c.toNat ≤ 57 := h.2
  have hzero : '0'.toNat = 48 := rfl
  omega

@[simp] theorem number_nil : number [] = 0 := rfl

/-- What two texts write, put together. -/
theorem number_append : number (text ++ rest) = number text * 10 ^ rest.length + number rest := by
  unfold number
  rw [Nat.ofDigitChars_append, Nat.ofDigitChars_eq_ofDigitChars_zero]
  ring

theorem number_cons {c : Char} :
    number (c :: text) = (c.toNat - '0'.toNat) * 10 ^ text.length + number text := by
  rw [← List.singleton_append, number_append]
  congr 2
  simp [number, Nat.ofDigitChars_cons]

@[simp] theorem number_zeros : number (List.replicate n '0') = 0 := by
  unfold number
  rw [Nat.ofDigitChars_replicate_zero, Nat.mul_zero]

/-- A text of digits writes a number of at most as many digits. -/
theorem AllDigits.number_lt (h : AllDigits text) : number text < 10 ^ text.length := by
  induction text with
  | nil => simp
  | cons c text ih =>
    rw [allDigits_cons] at h
    have hc := digit_lt h.1
    have htext := ih h.2
    rw [number_cons, List.length_cons, pow_succ]
    calc (c.toNat - '0'.toNat) * 10 ^ text.length + number text
        < (c.toNat - '0'.toNat) * 10 ^ text.length + 10 ^ text.length := by omega
      _ = (c.toNat - '0'.toNat + 1) * 10 ^ text.length := by ring
      _ ≤ 10 * 10 ^ text.length := Nat.mul_le_mul_right _ hc
      _ = 10 ^ text.length * 10 := Nat.mul_comm ..

/-! ### Places after the point -/

/-- The digits after the point, cut or filled up with zeros to a number of places. -/
def toPlaces (places : ℕ) (text : List Char) : List Char :=
  (text ++ List.replicate (places - text.length) '0').take places

@[simp] theorem length_toPlaces : (toPlaces places text).length = places := by
  simp only [toPlaces, List.length_take, List.length_append, List.length_replicate]
  omega

theorem AllDigits.toPlaces (h : AllDigits text) (places : ℕ) : AllDigits (toPlaces places text) :=
  AllDigits.take (allDigits_append.mpr ⟨h, allDigits_zeros _⟩) _

/-- Too few digits are scaled up. -/
theorem number_toPlaces_of_le (h : text.length ≤ places) :
    number (toPlaces places text) = number text * 10 ^ (places - text.length) := by
  rw [toPlaces, List.take_of_length_le (by rw [List.length_append, List.length_replicate]; omega),
    number_append, List.length_replicate, number_zeros, Nat.add_zero]

/-- Of too many digits, the first are the ones before the point of the scaled number. -/
theorem number_toPlaces_of_ge (hdigits : AllDigits text) (h : places ≤ text.length) :
    number (toPlaces places text) = number text / 10 ^ (text.length - places) := by
  have htake : toPlaces places text = text.take places := by
    rw [toPlaces, Nat.sub_eq_zero_of_le h, List.replicate_zero, List.append_nil]
  have hlength : (text.drop places).length = text.length - places := List.length_drop
  have hrest := (hdigits.drop places).number_lt
  rw [hlength] at hrest
  have hparts : number text =
      number (text.take places) * 10 ^ (text.length - places) + number (text.drop places) := by
    rw [← hlength, ← number_append, List.take_append_drop]
  rw [htake, hparts, Nat.mul_comm, Nat.mul_add_div (by positivity), Nat.div_eq_of_lt hrest, Nat.add_zero]

/-- **Scaling.** A number with places after the point, times a power of 10 and cut at the
point, is the whole part scaled plus the places. -/
theorem number_scaled (text : List Char) (places : ℕ) (hdigits : AllDigits rest) :
    number (text ++ rest) * 10 ^ places / 10 ^ rest.length =
      number text * 10 ^ places + number (toPlaces places rest) := by
  rw [number_append]
  rcases Nat.le_total rest.length places with hle | hge
  · -- the scale takes the point past the last digit
    have hpow : 10 ^ places = 10 ^ (places - rest.length) * 10 ^ rest.length := by
      rw [← pow_add, Nat.sub_add_cancel hle]
    rw [number_toPlaces_of_le hle]
    refine Nat.div_eq_of_eq_mul_left (Nat.pow_pos (by decide)) ?_
    calc (number text * 10 ^ rest.length + number rest) * 10 ^ places
        = number text * 10 ^ places * 10 ^ rest.length + number rest * 10 ^ places := by ring
      _ = number text * 10 ^ places * 10 ^ rest.length +
            number rest * (10 ^ (places - rest.length) * 10 ^ rest.length) := by rw [hpow]
      _ = (number text * 10 ^ places + number rest * 10 ^ (places - rest.length)) * 10 ^ rest.length := by
        ring
  · -- the digits past the scale are cut off
    have hpow : 10 ^ rest.length = 10 ^ (rest.length - places) * 10 ^ places := by
      rw [← pow_add, Nat.sub_add_cancel hge]
    rw [number_toPlaces_of_ge hdigits hge, hpow, Nat.mul_div_mul_right _ _ (by positivity)]
    calc (number text * (10 ^ (rest.length - places) * 10 ^ places) + number rest) / 10 ^ (rest.length - places)
        = (10 ^ (rest.length - places) * (number text * 10 ^ places) + number rest) /
            10 ^ (rest.length - places) := by ring_nf
      _ = number text * 10 ^ places + number rest / 10 ^ (rest.length - places) :=
        Nat.mul_add_div (by positivity) ..

end Numbers

/-! ### Writing a number -/

section Writing

variable {n places : ℕ}

/-- The decimal digits of a number. -/
def digitsOf (n : ℕ) : List Char := Nat.toDigits 10 n

theorem digitsOf_ne_nil : digitsOf n ≠ [] := Nat.toDigits_ne_nil

theorem allDigits_digitsOf : AllDigits (digitsOf n) :=
  fun _ hc => Nat.isDigit_of_mem_toDigits (by decide) (by decide) hc

@[simp] theorem number_digitsOf : number (digitsOf n) = n := Nat.ofDigitChars_ten_toDigits

/-- The digits of a number, filled up with zeros from the left to a fixed width. -/
def fixedDigits (places n : ℕ) : List Char :=
  List.replicate (places - (digitsOf n).length) '0' ++ digitsOf n

theorem allDigits_fixedDigits : AllDigits (fixedDigits places n) :=
  allDigits_append.mpr ⟨allDigits_zeros _, allDigits_digitsOf⟩

@[simp] theorem number_fixedDigits : number (fixedDigits places n) = n := by
  rw [fixedDigits, number_append, number_zeros, number_digitsOf, Nat.zero_mul, Nat.zero_add]

/-- A number below the power of 10 fits its width. -/
theorem length_fixedDigits (hplaces : 0 < places) (hn : n < 10 ^ places) :
    (fixedDigits places n).length = places := by
  have hlength : (digitsOf n).length ≤ places := (Nat.length_toDigits_le_iff (by decide) hplaces).mpr hn
  rw [fixedDigits, List.length_append, List.length_replicate]
  omega

end Writing

end MatchingEngine.Foundation
