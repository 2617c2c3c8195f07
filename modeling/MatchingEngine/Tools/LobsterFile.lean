import MatchingEngine.Core.OrderBookV2
import MatchingEngine.Foundation.Decimal
import MatchingEngine.Foundation.Outcome
import Mathlib.Data.List.TakeWhile

/-!
# LOBSTER message files

`parse_line` of `cpp/tools/replay_lobster.cpp` and `cpp/tools/replay_lobster_batched.cpp`: a line has
six fields between commas, and five of them are numbers, which the C library takes from the
beginning of their fields. The first field is a time, which nothing looks at.

A line that writes an event is parsed to it (`parseLine_line`), the lines of a file are those that it
was written from (`linesOf_unlines`), and so are its events (`eventsOf_written`).
-/

namespace MatchingEngine.Lobster

open Foundation

/-! ### The C library -/

/-- `std::isspace`. -/
def isSpace (c : Char) : Bool := c = ' ' || (9 ≤ c.toNat && c.toNat ≤ 13)

/-- Whether there is a minus in front, and what follows the sign. -/
def takeSign : List Char → Bool × List Char
  | '-' :: s => (true, s)
  | '+' :: s => (false, s)
  | s => (false, s)

/-- The number at the beginning of a text, of whatever size: 0 if there is none. -/
def leadingNumber (s : List Char) : ℤ :=
  let (minus, s) := takeSign (s.dropWhile isSpace)
  let n := number (s.takeWhile Char.isDigit)
  if minus then -n else n

/-- `std::strtoull`. -/
def strtoull (s : List Char) : UInt64 :=
  if (leadingNumber s).natAbs < 2 ^ 64 then UInt64.ofInt (leadingNumber s) else 18446744073709551615

/-- `std::strtoll`. -/
def strtoll (s : List Char) : ℤ := max (-2 ^ 63) (min (2 ^ 63 - 1) (leadingNumber s))

theorem strtoll_inI64 (s : List Char) : InI64 (strtoll s) := by
  rw [InI64, strtoll]
  omega

/-- `std::atoi`. The language does not say what it does with a number that is no `int`. -/
def atoi (s : List Char) : Except Ub ℤ :=
  if -2 ^ 31 ≤ leadingNumber s ∧ leadingNumber s < 2 ^ 31 then .ok (leadingNumber s) else .error .overflow

/-- `std::getline`: what stands in front of the delimiter, and what follows it. At the end there is nothing. -/
def getline (delim : Char) (s : List Char) : Option (List Char × List Char) :=
  if s.isEmpty then none else some (s.takeWhile (· ≠ delim), (s.dropWhile (· ≠ delim)).drop 1)

/-! ### Lines -/

/-- `struct LobsterEvent`, but for its time. -/
structure LobsterEvent where
  /-- `type`. -/
  type : ℤ
  /-- `order_id`. -/
  orderId : OrderId
  /-- `size`. -/
  size : Quantity
  /-- `price`. -/
  price : ℤ
  /-- It is an `int64_t`. -/
  inI64 : InI64 price
  /-- `direction`. -/
  direction : ℤ
  deriving DecidableEq

/-- `if (!std::getline(ss, field, ',')) return false;` -/
def withField (s : List Char) (f : List Char → List Char → Except Ub (Option LobsterEvent)) :
    Except Ub (Option LobsterEvent) :=
  match getline ',' s with
  | none => .ok none
  | some (field, rest) => f field rest

/-- `parse_line`. -/
def parseLine (line : List Char) : Except Ub (Option LobsterEvent) :=
  withField line fun _time rest =>
  withField rest fun field rest => do
    let type ← atoi field
    withField rest fun orderId rest =>
    withField rest fun size rest =>
    withField rest fun price rest =>
    withField rest fun field _ => do
      let direction ← atoi field
      .ok (some { type, orderId := strtoull orderId, size := strtoull size, price := strtoll price
                  inI64 := strtoll_inI64 price, direction })

/-- `while (std::getline(file, line))`, with no more turns than `n`. -/
def takeLines : ℕ → List Char → List (List Char)
  | 0, _ => []
  | n + 1, file =>
    match getline '\n' file with
    | none => []
    | some (line, rest) => line :: takeLines n rest

/-- The lines of a file. Each of them takes a character at least. -/
def linesOf (file : List Char) : List (List Char) := takeLines file.length file

/-- The events of some lines. -/
def eventsOf : List (List Char) → Except Ub (List LobsterEvent)
  | [] => .ok []
  | line :: rest =>
    if line.isEmpty then eventsOf rest
    else do
      match ← parseLine line with
      | none => eventsOf rest
      | some ev => do
        let evs ← eventsOf rest
        .ok (ev :: evs)

/-! ### Writing -/

/-- A number in text. -/
def intText (x : ℤ) : List Char := if x < 0 then '-' :: digitsOf x.natAbs else digitsOf x.natAbs

/-- The line of an event, with a text for its time. -/
def LobsterEvent.line (time : List Char) (ev : LobsterEvent) : List Char :=
  time ++ ',' :: (intText ev.type ++ ',' :: (digitsOf ev.orderId.toNat ++ ',' :: (digitsOf ev.size.toNat ++
    ',' :: (intText ev.price ++ ',' :: intText ev.direction))))

/-- A file of lines. -/
def unlines (lines : List (List Char)) : List Char := lines.flatMap (· ++ ['\n'])

section Text

variable {s rest : List Char} {delim : Char}

theorem getline_append (h : delim ∉ s) : getline delim (s ++ delim :: rest) = some (s, rest) := by
  have hall : ∀ c ∈ s, decide (c ≠ delim) = true := fun c hc => decide_eq_true fun he => h (he ▸ hc)
  have hne : (s ++ delim :: rest).isEmpty = false := by cases s <;> rfl
  rw [getline, hne, if_neg Bool.false_ne_true, List.takeWhile_append_of_pos hall, List.dropWhile_append_of_pos hall,
    List.takeWhile_cons_of_neg (by simp), List.dropWhile_cons_of_neg (by simp), List.append_nil]
  rfl

theorem getline_of_not_mem (h : delim ∉ s) (hne : s ≠ []) : getline delim s = some (s, []) := by
  have hall : ∀ c ∈ s, decide (c ≠ delim) = true := fun c hc => decide_eq_true fun he => h (he ▸ hc)
  rw [getline, if_neg (by rwa [List.isEmpty_iff]), List.takeWhile_eq_self_iff.mpr hall, List.dropWhile_eq_nil_iff.mpr hall]
  rfl

/-- A digit is no space, and no sign. -/
theorem not_isSpace_of_isDigit {c : Char} (h : c.isDigit) : isSpace c = false ∧ c ≠ '-' ∧ c ≠ '+' := by
  simp only [Char.isDigit, Bool.and_eq_true, decide_eq_true_eq] at h
  have hge : 48 ≤ c.toNat := h.1
  refine ⟨?_, ?_, ?_⟩
  · rw [isSpace, Bool.or_eq_false_iff, Bool.and_eq_false_iff, decide_eq_false_iff_not, decide_eq_false_iff_not,
      decide_eq_false_iff_not]
    refine ⟨?_, .inr (by omega)⟩
    rintro rfl
    exact absurd hge (by decide)
  · rintro rfl
    exact absurd hge (by decide)
  · rintro rfl
    exact absurd hge (by decide)

/-- Digits are taken as the number that they write. -/
theorem leadingNumber_digits (h : AllDigits s) : leadingNumber s = number s := by
  cases s with
  | nil => rfl
  | cons c s =>
    obtain ⟨hspace, hminus, hplus⟩ := not_isSpace_of_isDigit (h c List.mem_cons_self)
    have hsign : takeSign (c :: s) = (false, c :: s) := by
      rw [takeSign]
      · exact fun s' he => hminus (List.cons.inj he).1
      · exact fun s' he => hplus (List.cons.inj he).1
    rw [leadingNumber, List.dropWhile_cons_of_neg (by rw [hspace]; exact Bool.false_ne_true), hsign]
    dsimp only
    rw [List.takeWhile_eq_self_iff.mpr h]
    rfl

theorem leadingNumber_minus (h : AllDigits s) : leadingNumber ('-' :: s) = -number s := by
  have hsign : takeSign ('-' :: s) = (true, s) := rfl
  rw [leadingNumber, List.dropWhile_cons_of_neg (by decide), hsign]
  dsimp only
  rw [List.takeWhile_eq_self_iff.mpr h]
  rfl

/-- A number is read as it was written. -/
theorem leadingNumber_intText (x : ℤ) : leadingNumber (intText x) = x := by
  rw [intText]
  split_ifs with hneg
  · rw [leadingNumber_minus allDigits_digitsOf, number_digitsOf]
    omega
  · rw [leadingNumber_digits allDigits_digitsOf, number_digitsOf]
    omega

theorem strtoull_digitsOf (n : UInt64) : strtoull (digitsOf n.toNat) = n := by
  have hlt := n.toNat_lt
  rw [strtoull, leadingNumber_digits allDigits_digitsOf, number_digitsOf, if_pos (by simpa using hlt)]
  rw [UInt64.ofInt, show (n.toNat : ℤ) % 2 ^ 64 = n.toNat by omega, Int.toNat_natCast, UInt64.ofNat_toNat]

theorem strtoll_intText {x : ℤ} (h : InI64 x) : strtoll (intText x) = x := by
  rw [InI64] at h
  rw [strtoll, leadingNumber_intText]
  omega

theorem atoi_intText {x : ℤ} (h : -2 ^ 31 ≤ x ∧ x < 2 ^ 31) : atoi (intText x) = .ok x := by
  rw [atoi, leadingNumber_intText, if_pos h]

/-! ### The fields of a line -/

theorem not_mem_of_digits (h : AllDigits s) (hc : delim.isDigit = false) : delim ∉ s := fun hmem => by
  rw [h delim hmem] at hc
  cases hc

theorem not_mem_intText (x : ℤ) (hc : delim.isDigit = false) (hminus : delim ≠ '-') : delim ∉ intText x := by
  rw [intText]
  split_ifs
  · rw [List.mem_cons, not_or]
    exact ⟨hminus, not_mem_of_digits allDigits_digitsOf hc⟩
  · exact not_mem_of_digits allDigits_digitsOf hc

theorem intText_ne_nil (x : ℤ) : intText x ≠ [] := by
  rw [intText]
  split_ifs
  · exact List.cons_ne_nil _ _
  · exact digitsOf_ne_nil

theorem withField_append (h : ',' ∉ s) (f : List Char → List Char → Except Ub (Option LobsterEvent)) :
    withField (s ++ ',' :: rest) f = f s rest := by
  rw [withField, getline_append h]

end Text

/-- The type and the direction are `int`s. -/
def LobsterEvent.Ints (ev : LobsterEvent) : Prop :=
  (-2 ^ 31 ≤ ev.type ∧ ev.type < 2 ^ 31) ∧ -2 ^ 31 ≤ ev.direction ∧ ev.direction < 2 ^ 31

instance (ev : LobsterEvent) : Decidable ev.Ints := inferInstanceAs (Decidable (_ ∧ _))

/-- **A line is parsed** to the event that it was written from, whatever is written for its time. -/
theorem parseLine_line {ev : LobsterEvent} (h : ev.Ints) {time : List Char} (htime : ',' ∉ time) :
    parseLine (ev.line time) = .ok (some ev) := by
  have hdigits : ∀ n, ',' ∉ digitsOf n := fun n => not_mem_of_digits allDigits_digitsOf rfl
  have hints : ∀ x, ',' ∉ intText x := fun x => not_mem_intText x rfl (by decide)
  rw [parseLine, LobsterEvent.line, withField_append htime, withField_append (hints _), atoi_intText h.1, ok_bind,
    withField_append (hdigits _), withField_append (hdigits _), withField_append (hints _), withField,
    getline_of_not_mem (hints _) (intText_ne_nil _)]
  dsimp only
  rw [atoi_intText h.2, ok_bind]
  simp only [strtoull_digitsOf, strtoll_intText ev.inI64]

/-- **The lines of a file** are those that it was written from. -/
theorem linesOf_unlines {lines : List (List Char)} (h : ∀ line ∈ lines, '\n' ∉ line) : linesOf (unlines lines) = lines := by
  suffices hfrom : ∀ n, (unlines lines).length ≤ n → takeLines n (unlines lines) = lines from hfrom _ le_rfl
  induction lines with
  | nil =>
    intro n _
    cases n <;> rfl
  | cons line lines ih =>
    intro n hn
    have hcons : unlines (line :: lines) = line ++ '\n' :: unlines lines := by simp [unlines]
    rw [hcons, List.length_append, List.length_cons] at hn
    cases n with
    | zero => omega
    | succ n =>
      rw [hcons, takeLines, getline_append (h line List.mem_cons_self)]
      exact congrArg (line :: ·) (ih (fun l hl => h l (List.mem_cons_of_mem line hl)) n (by omega))

theorem LobsterEvent.newline_not_mem (ev : LobsterEvent) {time : List Char} (h : '\n' ∉ time) : '\n' ∉ ev.line time := by
  have hdigits : ∀ n, '\n' ∉ digitsOf n := fun n => not_mem_of_digits allDigits_digitsOf rfl
  have hints : ∀ x, '\n' ∉ intText x := fun x => not_mem_intText x rfl (by decide)
  simp [LobsterEvent.line, h, hdigits, hints]

/-- **A file of events is read back**: it has no other events than those that its lines were written from. -/
theorem eventsOf_written {day : List (List Char × LobsterEvent)}
    (h : ∀ e ∈ day, e.2.Ints ∧ ',' ∉ e.1 ∧ '\n' ∉ e.1) :
    eventsOf (linesOf (unlines (day.map fun e => e.2.line e.1))) = .ok (day.map (·.2)) := by
  have hlines : ∀ line ∈ day.map fun e => e.2.line e.1, '\n' ∉ line := by
    intro line hline
    obtain ⟨e, he, rfl⟩ := List.mem_map.mp hline
    exact e.2.newline_not_mem (h e he).2.2
  rw [linesOf_unlines hlines]
  clear hlines
  induction day with
  | nil => rfl
  | cons e day ih =>
    obtain ⟨⟨hints, hcomma, -⟩, hday⟩ := List.forall_mem_cons.mp h
    have hne : (e.2.line e.1).isEmpty = false := by simp [LobsterEvent.line]
    rw [List.map_cons, eventsOf, hne, if_neg Bool.false_ne_true, parseLine_line hints hcomma, ok_bind]
    dsimp only
    rw [ih hday]
    rfl

/-- Two events, one with the largest id and the smallest price. -/
def twoEvents : List (List Char × LobsterEvent) :=
  [("34200.017".toList, ⟨1, 18446744073709551615, 5, -9223372036854775808, by decide, -1⟩), ([], ⟨7, 0, 0, -1, by decide, 1⟩)]

theorem eventsOf_written_two :
    eventsOf (linesOf "34200.017,1,18446744073709551615,5,-9223372036854775808,-1\n,7,0,0,-1,1\n".toList) =
      .ok [⟨1, 18446744073709551615, 5, -9223372036854775808, by decide, -1⟩, ⟨7, 0, 0, -1, by decide, 1⟩] :=
  eventsOf_written (show ∀ e ∈ twoEvents, e.2.Ints ∧ ',' ∉ e.1 ∧ '\n' ∉ e.1 by decide)

end MatchingEngine.Lobster
