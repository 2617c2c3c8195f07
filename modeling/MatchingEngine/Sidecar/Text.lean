import MatchingEngine.Foundation.Decimal
import MatchingEngine.Sidecar.Integers
import Mathlib.Data.List.DropRight
import Mathlib.Data.List.TakeWhile

/-!
# The text operations of the sidecar

What `rust/src/fix.rs` uses of the standard library's `str` and `String`. A string is the
list of its characters; where an operation counts bytes, they are those of the UTF-8
encoding. `parse` of a fixed-width integer takes an optional sign (a minus only for a signed
type) and one or more decimal digits, and fails out of the type's range.
-/

namespace MatchingEngine.Sidecar

open MatchingEngine.Foundation

/-- `str`. -/
abbrev Str := List Char

/-! ### The operations -/

/-- `str::len`, in bytes. -/
def len (s : Str) : ℕ := (s.map Char.utf8Size).sum

/-- `String::truncate`: the characters of the first `n` bytes. -/
def truncate : Str → ℕ → Except Panic Str
  | [], _ => .ok []
  | c :: s, n =>
    if n = 0 then .ok []
    else if c.utf8Size ≤ n then (truncate s (n - c.utf8Size)).map (c :: ·)
    else .error .charBoundary

/-- What `splitn(2, c)` gives first. -/
def before (c : Char) (s : Str) : Str := s.takeWhile (· ≠ c)

/-- What `splitn(2, c)` gives next, if anything. -/
def after (c : Char) (s : Str) : Option Str :=
  match s.dropWhile (· ≠ c) with
  | [] => none
  | _ :: rest => some rest

/-- `char::is_whitespace`. -/
def isWhitespace (c : Char) : Bool :=
  (9 ≤ c.toNat ∧ c.toNat ≤ 13) ∨ c.toNat = 32 ∨ c.toNat = 0x85 ∨ c.toNat = 0xA0 ∨ c.toNat = 0x1680 ∨
    (0x2000 ≤ c.toNat ∧ c.toNat ≤ 0x200A) ∨ c.toNat = 0x2028 ∨ c.toNat = 0x2029 ∨ c.toNat = 0x202F ∨
    c.toNat = 0x205F ∨ c.toNat = 0x3000

/-- `str::trim`. -/
def trim (s : Str) : Str := (s.dropWhile isWhitespace).rdropWhile isWhitespace

/-- The number of one or more decimal digits. -/
def digitsValue (s : Str) : Option ℕ := if s ≠ [] ∧ AllDigits s then some (number s) else none

/-- The number of an optional sign and one or more decimal digits. -/
def signedValue : Str → Option ℤ
  | '-' :: s => (digitsValue s).map fun n : ℕ => -(n : ℤ)
  | '+' :: s => (digitsValue s).map Nat.cast
  | s => (digitsValue s).map Nat.cast

/-- The number of an optional plus sign and one or more decimal digits. -/
def unsignedValue : Str → Option ℕ
  | '+' :: s => digitsValue s
  | s => digitsValue s

/-- `str::parse::<i64>`. -/
def parseI64 (s : Str) : Option Int64 :=
  (signedValue s).bind fun x => if InI64 x then some (Int64.ofInt x) else none

/-- `str::parse::<u64>`. -/
def parseU64 (s : Str) : Option UInt64 :=
  (unsignedValue s).bind fun n => if n < 2 ^ 64 then some (UInt64.ofNat n) else none

/-- `str::parse::<u32>`. -/
def parseU32 (s : Str) : Option UInt32 :=
  (unsignedValue s).bind fun n => if n < 2 ^ 32 then some (UInt32.ofNat n) else none

/-! ### Bytes and characters -/

section Bytes

variable {s p q : Str} {n : ℕ}

/-- Every character is one byte. -/
def Ascii (s : Str) : Prop := ∀ c ∈ s, c.utf8Size = 1

@[simp] theorem len_nil : len [] = 0 := rfl

@[simp] theorem len_cons {c : Char} : len (c :: s) = c.utf8Size + len s := List.sum_cons

@[simp] theorem len_append : len (p ++ q) = len p + len q := by
  simp only [len, List.map_append, List.sum_append]

/-- There are at least as many bytes as characters. -/
theorem length_le_len : s.length ≤ len s := by
  induction s with
  | nil => exact le_rfl
  | cons c s ih =>
    have hc := c.utf8Size_pos
    rw [List.length_cons, len_cons]
    omega

theorem Ascii.len_eq (h : Ascii s) : len s = s.length := by
  induction s with
  | nil => rfl
  | cons c s ih =>
    have hc := h c List.mem_cons_self
    have hs := ih fun d hd => h d (List.mem_cons_of_mem c hd)
    rw [len_cons, List.length_cons, hc, hs, Nat.add_comm]

theorem Ascii.mono (h : Ascii s) (hsub : p ⊆ s) : Ascii p := fun c hc => h c (hsub hc)

/-- A character up to `0x7F` is one byte. -/
theorem utf8Size_eq_one {c : Char} (h : c.toNat < 128) : c.utf8Size = 1 := by
  have hle : c.val ≤ 127 := by
    rw [UInt32.le_iff_toNat_le]
    exact Nat.le_of_lt_succ h
  exact Char.utf8Size_eq_one_iff.mpr hle

theorem utf8Size_digit {c : Char} (h : c.isDigit) : c.utf8Size = 1 := by
  simp only [Char.isDigit, Bool.and_eq_true, decide_eq_true_eq] at h
  have hle : c.toNat ≤ 57 := h.2
  exact utf8Size_eq_one (by omega)

theorem ascii_of_allDigits (h : AllDigits s) : Ascii s := fun c hc => utf8Size_digit (h c hc)

@[simp] theorem len_zeros : len (List.replicate n '0') = n := by
  rw [(ascii_of_allDigits (allDigits_zeros n)).len_eq, List.length_replicate]

/-- Where the first characters have the bytes asked for, they are what is left. -/
theorem truncate_append : truncate (p ++ q) (len p) = .ok p := by
  induction p with
  | nil => cases q <;> simp [truncate]
  | cons c p ih =>
    have hc := c.utf8Size_pos
    rw [List.cons_append, truncate, len_cons, if_neg (by omega), if_pos (by omega),
      Nat.add_sub_cancel_left, ih]
    rfl

/-- A cut that succeeds keeps the first characters, and they have the bytes asked for. -/
theorem truncate_ok (hn : n ≤ len s) (h : truncate s n = .ok p) : ∃ q, s = p ++ q ∧ len p = n := by
  induction s generalizing n p with
  | nil =>
    obtain rfl := Except.ok.inj h
    exact ⟨[], rfl, (Nat.le_zero.mp hn).symm⟩
  | cons c s ih =>
    unfold truncate at h
    split_ifs at h with hzero hfits
    · obtain rfl := Except.ok.inj h
      exact ⟨c :: s, rfl, hzero.symm⟩
    · cases hrest : truncate s (n - c.utf8Size) with
      | error e => rw [hrest] at h; exact nomatch h
      | ok p' =>
        rw [hrest] at h
        obtain rfl := Except.ok.inj h
        rw [len_cons] at hn
        obtain ⟨q, hs, hlen⟩ := ih (by omega) hrest
        refine ⟨q, by rw [hs, List.cons_append], ?_⟩
        rw [len_cons, hlen]
        omega

/-- A cut that fails does so in the middle of a character. -/
theorem truncate_error {e : Panic} (h : truncate s n = .error e) : e = .charBoundary := by
  induction s generalizing n with
  | nil => exact nomatch h
  | cons c s ih =>
    unfold truncate at h
    split_ifs at h with hzero hfits
    · cases hrest : truncate s (n - c.utf8Size) with
      | error e' =>
        rw [hrest] at h
        obtain rfl := Except.error.inj h
        exact ih hrest
      | ok p => rw [hrest] at h; exact nomatch h
    · exact (Except.error.inj h).symm

end Bytes

/-! ### Before and after a character -/

section Split

variable {c : Char} {s p q : Str}

theorem before_append (h : c ∉ p) : before c (p ++ c :: q) = p := by
  unfold before
  rw [List.takeWhile_append_of_pos (fun d hd => decide_eq_true (ne_of_mem_of_not_mem hd h)),
    List.takeWhile_cons_of_neg (by simp), List.append_nil]

theorem after_append (h : c ∉ p) : after c (p ++ c :: q) = some q := by
  unfold after
  rw [List.dropWhile_append_of_pos (fun d hd => decide_eq_true (ne_of_mem_of_not_mem hd h)),
    List.dropWhile_cons_of_neg (by simp)]

theorem before_of_notMem (h : c ∉ s) : before c s = s :=
  List.takeWhile_eq_self_iff.mpr fun _ hd => decide_eq_true (ne_of_mem_of_not_mem hd h)

theorem after_of_notMem (h : c ∉ s) : after c s = none := by
  unfold after
  rw [List.dropWhile_eq_nil_iff.mpr fun d hd => decide_eq_true (ne_of_mem_of_not_mem hd h)]

/-- The two parts are the whole string. -/
theorem split_eq (c : Char) (s : Str) :
    (after c s = none ∧ s = before c s) ∨ ∃ q, after c s = some q ∧ s = before c s ++ c :: q := by
  by_cases h : c ∈ s
  · obtain ⟨p, q, rfl, hp⟩ := List.eq_append_cons_of_mem h
    exact .inr ⟨q, after_append hp, by rw [before_append hp]⟩
  · exact .inl ⟨after_of_notMem h, (before_of_notMem h).symm⟩

end Split

/-! ### Whitespace -/

section Whitespace

variable {s : Str}

/-- A string without whitespace is not trimmed. -/
theorem trim_of_none (h : ∀ c ∈ s, isWhitespace c = false) : trim s = s := by
  have hfront : s.dropWhile isWhitespace = s := by
    cases s with
    | nil => rfl
    | cons c s => rw [List.dropWhile_cons_of_neg (by simp [h c List.mem_cons_self])]
  unfold trim
  rw [hfront, List.rdropWhile_eq_self_iff]
  intro hne
  simp [h _ (List.getLast_mem hne)]

/-- A string with a character other than whitespace is not empty when trimmed. -/
theorem trim_ne_nil {c : Char} (h : c ∈ s) (hc : isWhitespace c = false) : trim s ≠ [] := by
  intro hnil
  unfold trim at hnil
  rw [List.rdropWhile_eq_nil_iff] at hnil
  have hmem : c ∈ s.dropWhile isWhitespace := by
    have hparts := List.takeWhile_append_dropWhile (p := isWhitespace) (l := s)
    rw [← hparts, List.mem_append] at h
    refine h.resolve_left fun hfront => ?_
    rw [List.mem_takeWhile_imp hfront] at hc
    exact nomatch hc
  rw [hnil c hmem] at hc
  exact nomatch hc

/-- A digit is no whitespace. -/
theorem isWhitespace_digit {c : Char} (h : c.isDigit) : isWhitespace c = false := by
  simp only [Char.isDigit, Bool.and_eq_true, decide_eq_true_eq] at h
  have hge : 48 ≤ c.toNat := h.1
  have hle : c.toNat ≤ 57 := h.2
  simp only [isWhitespace, decide_eq_false_iff_not]
  omega

end Whitespace

/-! ### Numerals -/

section Numerals

variable {s : Str} {n : ℕ} {x : ℤ}

theorem digitsValue_eq_some : digitsValue s = some n ↔ s ≠ [] ∧ AllDigits s ∧ number s = n := by
  unfold digitsValue
  split_ifs with h
  · simp [h.1, h.2]
  · simp only [false_iff]
    rintro ⟨hne, hdigits, -⟩
    exact h ⟨hne, hdigits⟩

/-- A digit is no sign. -/
theorem ne_sign_of_isDigit {c : Char} (h : c.isDigit) : c ≠ '-' ∧ c ≠ '+' :=
  ⟨by rintro rfl; exact absurd h (by decide), by rintro rfl; exact absurd h (by decide)⟩

/-- The signs that a number may begin with. -/
inductive Sign where
  /-- No sign. -/
  | none
  /-- A plus sign. -/
  | plus
  /-- A minus sign. -/
  | minus
  deriving DecidableEq

/-- The sign as it is written. -/
def Sign.text : Sign → Str
  | .none => []
  | .plus => ['+']
  | .minus => ['-']

/-- The factor that the sign stands for. -/
def Sign.factor : Sign → ℤ
  | .none => 1
  | .plus => 1
  | .minus => -1

theorem signedValue_digits (h : AllDigits s) : signedValue s = (digitsValue s).map Nat.cast := by
  unfold signedValue
  split
  · exact absurd (allDigits_cons.mp h).1 (by decide)
  · exact absurd (allDigits_cons.mp h).1 (by decide)
  · rfl

theorem unsignedValue_digits (h : AllDigits s) : unsignedValue s = digitsValue s := by
  unfold unsignedValue
  split
  · exact absurd (allDigits_cons.mp h).1 (by decide)
  · rfl

/-- A sign and digits are a signed number. -/
theorem signedValue_sign (sign : Sign) (hne : s ≠ []) (h : AllDigits s) :
    signedValue (sign.text ++ s) = some (sign.factor * number s) := by
  have hdigits : digitsValue s = some (number s) := digitsValue_eq_some.mpr ⟨hne, h, rfl⟩
  cases sign with
  | none =>
    show signedValue s = _
    rw [signedValue_digits h, hdigits]
    simp [Sign.factor]
  | plus =>
    show (digitsValue s).map Nat.cast = _
    rw [hdigits]
    simp [Sign.factor]
  | minus =>
    show (digitsValue s).map (fun n : ℕ => -(n : ℤ)) = _
    rw [hdigits]
    simp [Sign.factor]

/-- A signed number is a sign and digits. -/
theorem signedValue_eq_some (h : signedValue s = some x) :
    ∃ (sign : Sign) (w : Str), s = sign.text ++ w ∧ w ≠ [] ∧ AllDigits w ∧ x = sign.factor * number w := by
  have digits : ∀ w n, digitsValue w = some n → w ≠ [] ∧ AllDigits w ∧ n = number w := fun w n hw =>
    (digitsValue_eq_some.mp hw).imp_right (And.imp_right Eq.symm)
  unfold signedValue at h
  split at h
  · obtain ⟨n, hn, rfl⟩ := Option.map_eq_some_iff.mp h
    obtain ⟨hne, hdigits, rfl⟩ := digits _ n hn
    exact ⟨.minus, _, rfl, hne, hdigits, by simp [Sign.factor]⟩
  · obtain ⟨n, hn, rfl⟩ := Option.map_eq_some_iff.mp h
    obtain ⟨hne, hdigits, rfl⟩ := digits _ n hn
    exact ⟨.plus, _, rfl, hne, hdigits, by simp [Sign.factor]⟩
  · obtain ⟨n, hn, rfl⟩ := Option.map_eq_some_iff.mp h
    obtain ⟨hne, hdigits, rfl⟩ := digits _ n hn
    exact ⟨.none, _, rfl, hne, hdigits, by simp [Sign.factor]⟩

theorem ascii_of_signedValue (h : signedValue s = some x) : Ascii s := by
  obtain ⟨sign, w, rfl, -, hw, -⟩ := signedValue_eq_some h
  intro c hc
  rcases List.mem_append.mp hc with hc | hc
  · cases sign
    · exact nomatch hc
    · obtain rfl := List.mem_singleton.mp hc
      rfl
    · obtain rfl := List.mem_singleton.mp hc
      rfl
  · exact utf8Size_digit (hw c hc)

theorem parseI64_eq_some {a : Int64} : parseI64 s = some a ↔ signedValue s = some a.toInt := by
  unfold parseI64
  constructor
  · intro h
    obtain ⟨x, hx, ha⟩ := Option.bind_eq_some_iff.mp h
    split_ifs at ha with hin
    obtain rfl := Option.some.inj ha
    rw [toInt_ofInt hin, hx]
  · intro h
    rw [h, Option.bind_some, if_pos (inI64_toInt a), Int64.ofInt_toInt]

/-- The digits of a number are an unsigned number. -/
theorem unsignedValue_digitsOf (n : ℕ) : unsignedValue (digitsOf n) = some n := by
  rw [unsignedValue_digits allDigits_digitsOf]
  exact digitsValue_eq_some.mpr ⟨digitsOf_ne_nil, allDigits_digitsOf, number_digitsOf⟩

theorem parseU64_digitsOf (n : UInt64) : parseU64 (digitsOf n.toNat) = some n := by
  rw [parseU64, unsignedValue_digitsOf, Option.bind_some, if_pos n.toNat_lt, UInt64.ofNat_toNat]

/-- Tags from `2 ^ 32` on are no `u32`. -/
theorem parseU32_digitsOf (n : ℕ) :
    parseU32 (digitsOf n) = if n < 2 ^ 32 then some (UInt32.ofNat n) else none := by
  rw [parseU32, unsignedValue_digitsOf, Option.bind_some]

end Numerals

end MatchingEngine.Sidecar
