import Mathlib.Data.List.Range
import Mathlib.Order.Bounds.Basic
import Mathlib.Tactic.Common

/-!
# Delivery in order

A receiver of numbered messages that come in any order, some of them twice or never,
and that hands them on strictly by number. It has handed on those below `next`, and
holds what has come of the others. `InOrder` says so; the rules say what each of its
moves keeps: taking a message in, passing over a late one, handing one on. When
nothing it holds has the number `next`, that number has not come at all, and what has
been handed on depends only on what has come, not on when.

A receiver that learns of numbers before they come asks for them. `HolesAsked` says that
what it has learnt of and has neither handed on nor holds has been asked for, but for what
was out of the reach of a request whenever it was announced.
-/

namespace MatchingEngine.Foundation

variable {α : Type*}

/-- **The state of a receiver** that starts at `start`: `came n a` when the message `a` has come with
the number `n`, `held n a` when it is kept for later. -/
structure InOrder (start : ℕ) (came : ℕ → α → Prop) (next : ℕ) (held : ℕ → α → Prop)
    (delivered : List (ℕ × α)) : Prop where
  start_le : start ≤ next
  /-- The numbers handed on are the ones from `start` to below `next`, each once and in order. -/
  numbers : delivered.map Prod.fst = List.range' start (next - start)
  /-- A message is handed on under its own number. -/
  own : ∀ m ∈ delivered, came m.1 m.2
  /-- What has come and is not below `next` is held, and nothing else is. -/
  held_iff : ∀ n a, held n a ↔ next ≤ n ∧ came n a

namespace InOrder

variable {start next next' n : ℕ} {a : α} {came came' held held' : ℕ → α → Prop}
  {delivered delivered' : List (ℕ × α)}

/-- Nothing has come. -/
theorem init (start : ℕ) (hc : ∀ n (a : α), ¬ came n a) (hh : ∀ n a, ¬ held n a) :
    InOrder start came start held [] where
  start_le := le_rfl
  numbers := by simp
  own := by simp
  held_iff n a := by simp [hc, hh]

/-- A message below `next` is passed over. -/
theorem passOver (h : InOrder start came next held delivered) (hn : n < next)
    (hc : ∀ m b, came' m b ↔ came m b ∨ (m = n ∧ b = a)) : InOrder start came' next held delivered where
  start_le := h.start_le
  numbers := h.numbers
  own m hm := (hc _ _).mpr (Or.inl (h.own m hm))
  held_iff m b := by
    rw [h.held_iff, hc]
    refine and_congr_right fun hm => ⟨Or.inl, ?_⟩
    rintro (hb | ⟨rfl, -⟩)
    · exact hb
    · omega

/-- Any other message is taken in. -/
theorem takeIn (h : InOrder start came next held delivered) (hn : next ≤ n)
    (hc : ∀ m b, came' m b ↔ came m b ∨ (m = n ∧ b = a))
    (hh : ∀ m b, held' m b ↔ held m b ∨ (m = n ∧ b = a)) : InOrder start came' next held' delivered where
  start_le := h.start_le
  numbers := h.numbers
  own m hm := (hc _ _).mpr (Or.inl (h.own m hm))
  held_iff m b := by
    rw [hh, h.held_iff, hc]
    constructor
    · rintro (⟨hm, hb⟩ | ⟨rfl, rfl⟩)
      · exact ⟨hm, Or.inl hb⟩
      · exact ⟨hn, Or.inr ⟨rfl, rfl⟩⟩
    · rintro ⟨hm, hb | hb⟩
      · exact Or.inl ⟨hm, hb⟩
      · exact Or.inr hb

/-- The message with the number `next` is handed on. -/
theorem handOn (h : InOrder start came next held delivered) (ha : held next a)
    (hh : ∀ m b, held' m b ↔ held m b ∧ m ≠ next) :
    InOrder start came (next + 1) held' (delivered ++ [(next, a)]) where
  start_le := le_trans h.start_le (Nat.le_succ next)
  numbers := by
    have hs := h.start_le
    rw [List.map_append, h.numbers, show next + 1 - start = (next - start) + 1 by omega, List.range'_concat]
    simp [Nat.add_sub_cancel' hs]
  own m hm := by
    obtain hm | hm := List.mem_append.mp hm
    · exact h.own m hm
    · obtain rfl := List.mem_singleton.mp hm
      exact ((h.held_iff next a).mp ha).2
  held_iff m b := by
    rw [hh, h.held_iff]
    constructor
    · rintro ⟨⟨hm, hb⟩, hne⟩
      exact ⟨by omega, hb⟩
    · rintro ⟨hm, hb⟩
      exact ⟨⟨by omega, hb⟩, by omega⟩

/-- Every number from `start` to below `next` has come. -/
theorem came_of_lt (h : InOrder start came next held delivered) (h₁ : start ≤ n) (h₂ : n < next) :
    ∃ a, came n a := by
  have hn : n ∈ delivered.map Prod.fst := by
    rw [h.numbers, List.mem_range'_1]
    omega
  obtain ⟨m, hm, rfl⟩ := List.mem_map.mp hn
  exact ⟨m.2, h.own m hm⟩

/-- **What a receiver with nothing more to hand on waits for**: the first number that has not come. -/
theorem isLeast (h : InOrder start came next held delivered) (hw : ∀ a, ¬ held next a) :
    IsLeast {n | start ≤ n ∧ ∀ a, ¬ came n a} next := by
  constructor
  · exact ⟨h.start_le, fun a ha => hw a ((h.held_iff next a).mpr ⟨le_rfl, ha⟩)⟩
  · rintro n ⟨hs, hn⟩
    by_contra hlt
    obtain ⟨a, ha⟩ := h.came_of_lt hs (by omega)
    exact hn a ha

end InOrder

/-- Lists of numbered messages with the same numbers are equal, where a number has one message. -/
theorem eq_of_numbers {came : ℕ → α → Prop} (hc : ∀ n a b, came n a → came n b → a = b) :
    ∀ {xs ys : List (ℕ × α)}, xs.map Prod.fst = ys.map Prod.fst → (∀ m ∈ xs, came m.1 m.2) →
      (∀ m ∈ ys, came m.1 m.2) → xs = ys := by
  intro xs
  induction xs with
  | nil =>
    intro ys h _ _
    exact (List.map_eq_nil_iff.mp h.symm).symm
  | cons x xs ih =>
    intro ys h hx hy
    cases ys with
    | nil => simp at h
    | cons y ys =>
      simp only [List.map_cons, List.cons.injEq] at h
      have hxy : x.2 = y.2 := by
        refine hc x.1 _ _ (hx x (by simp)) ?_
        rw [h.1]
        exact hy y (by simp)
      rw [Prod.ext h.1 hxy, ih h.2 (fun m hm => hx m (by simp [hm])) (fun m hm => hy m (by simp [hm]))]

/-- **What has been handed on depends only on what has come.** -/
theorem InOrder.unique {start next next' : ℕ} {came came' held held' : ℕ → α → Prop}
    {delivered delivered' : List (ℕ × α)} (h : InOrder start came next held delivered)
    (h' : InOrder start came' next' held' delivered') (hw : ∀ a, ¬ held next a) (hw' : ∀ a, ¬ held' next' a)
    (hc : ∀ n a b, came n a → came n b → a = b) (hsame : ∀ n a, came' n a ↔ came n a) :
    next' = next ∧ delivered' = delivered := by
  have hnext : next' = next := by
    have hl := h'.isLeast hw'
    simp only [hsame] at hl
    exact hl.unique (h.isLeast hw)
  subst hnext
  refine ⟨rfl, eq_of_numbers hc ?_ (fun m hm => (hsame _ _).mp (h'.own m hm)) h.own⟩
  rw [h.numbers, h'.numbers]

/-! ### Asking for what is missing -/

/-- A receiver learns that there are messages up to a number, while it waits for the number `next`. -/
structure Announcement where
  /-- What it waits for when it learns of them. -/
  next : ℕ
  /-- The first number that is not announced. -/
  upTo : ℕ

/-- **No hole goes unasked.** A number that was announced and not handed on is held, has been asked
for, or was out of reach when it was announced: a request reaches `reach` numbers from `next` on. -/
def HolesAsked (reach : ℕ) (announcements : List Announcement) (next : ℕ) (held asked : ℕ → Prop) : Prop :=
  ∀ a ∈ announcements, ∀ n, next ≤ n → n < a.upTo → held n ∨ asked n ∨ a.next + reach ≤ n

namespace HolesAsked

variable {reach next next' n : ℕ} {announcements : List Announcement} {held held' asked asked' : ℕ → Prop}

/-- Handing on, taking in and asking keep it. -/
theorem mono (h : HolesAsked reach announcements next held asked) (hnext : next ≤ next')
    (hheld : ∀ n, next' ≤ n → held n → held' n) (hasked : ∀ n, asked n → asked' n) :
    HolesAsked reach announcements next' held' asked' := fun a ha n hn hlt =>
  (h a ha n (hnext.trans hn) hlt).imp (hheld n hn) (Or.imp_left (hasked n))

/-- One more announcement, of which every hole is asked for. -/
theorem announce (h : HolesAsked reach announcements next held asked) (a : Announcement)
    (ha : ∀ n, next ≤ n → n < a.upTo → held n ∨ asked n ∨ a.next + reach ≤ n) :
    HolesAsked reach (announcements ++ [a]) next held asked := by
  intro b hb
  rcases List.mem_append.mp hb with hb | hb
  · exact h b hb
  · obtain rfl := List.mem_singleton.mp hb
    exact ha

/-- A hole that has not been asked for was out of reach at each announcement of it. -/
theorem out_of_reach (h : HolesAsked reach announcements next held asked) (hn : next ≤ n) :
    held n ∨ asked n ∨ ∀ a ∈ announcements, n < a.upTo → a.next + reach ≤ n := by
  by_cases hheld : held n
  · exact .inl hheld
  by_cases hasked : asked n
  · exact .inr (.inl hasked)
  · exact .inr (.inr fun a ha hlt => ((h a ha n hn hlt).resolve_left hheld).resolve_left hasked)

end HolesAsked

end MatchingEngine.Foundation
