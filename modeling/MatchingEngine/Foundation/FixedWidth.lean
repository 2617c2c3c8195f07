import Mathlib.Data.List.DropRight
import Mathlib.Tactic.Common

/-!
# Fixed-width fields

A field of `n` places holds a shorter string by filling the places after it with a blank.
The string is read back by dropping the blanks at the end. Strings that end in a blank or
are too long do not survive this, but what is read from a field does.
-/

namespace MatchingEngine.Foundation

variable {α : Type*}

/-- The string in a field: what is left without the blanks at the end. -/
def trimEnd [DecidableEq α] (blank : α) (field : List α) : List α := field.rdropWhile (· = blank)

/-- The field for a string: its first `n` places, and blanks after it. -/
def padTo (n : ℕ) (blank : α) (s : List α) : Vector α n := Vector.ofFn fun i => s.getD i blank

/-- Reads `n` places. -/
def readArray (n : ℕ) (blank : α) (p : List α) : Vector α n := Vector.ofFn fun i => p.getD i blank

/-- What comes after a field. -/
theorem drop_field {data field rest : List α} {i n : ℕ} (h : data.drop i = field ++ rest) (hn : field.length = n) :
    data.drop (i + n) = rest := by
  rw [← List.drop_drop, h, List.drop_left' hn]

theorem readArray_toList_append (n : ℕ) (blank : α) (v : Vector α n) (rest : List α) :
    readArray n blank (v.toList ++ rest) = v := by
  ext i hi
  simp [readArray, List.getElem?_append_left]

/-- The places that were read. -/
theorem toList_readArray {n : ℕ} {p : List α} (blank : α) (h : n ≤ p.length) :
    (readArray n blank p).toList = p.take n := by
  refine List.ext_getElem (by simp [h]) fun i hi hi' => ?_
  have hlt : i < p.length := by
    rw [List.length_take] at hi'
    omega
  simp [readArray, hlt]

/-- Dropping blanks changes no place of a field that blanks follow. -/
theorem getD_trimEnd [DecidableEq α] (blank : α) (field : List α) (i : ℕ) :
    (trimEnd blank field).getD i blank = field.getD i blank := by
  induction field using List.reverseRecOn with
  | nil => simp [trimEnd]
  | append_singleton field a ih =>
    rw [trimEnd, List.rdropWhile_concat]
    split_ifs with ha
    · refine ih.trans ?_
      have hab : a = blank := of_decide_eq_true ha
      rcases Nat.lt_trichotomy i field.length with hi | rfl | hi
      · simp [List.getElem?_append_left hi]
      · simp [hab]
      · have hlen : (field ++ [a]).length ≤ i := by
          rw [List.length_append, List.length_singleton]
          omega
        simp [List.getD_eq_getElem?_getD, List.getElem?_eq_none hi.le, List.getElem?_eq_none hlen]
    · rfl

/-- **The string in a field, padded, is the field.** -/
theorem padTo_trimEnd [DecidableEq α] (n : ℕ) (blank : α) (field : Vector α n) :
    padTo n blank (trimEnd blank field.toList) = field := by
  ext i hi
  rw [padTo, Vector.getElem_ofFn, getD_trimEnd]
  simp [hi]

end MatchingEngine.Foundation
