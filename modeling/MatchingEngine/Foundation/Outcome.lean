import Mathlib.Tactic.Common

/-!
# How a fallible computation ends

A computation of type `Except ε α` gives a result or fails with an `ε`. `Ends fails x post`
says of one that a result satisfies `post`, and that a failure is one of those that `fails`
allows; with nothing allowed, `x` gives a result. The rules follow the shape of the program.
-/

namespace MatchingEngine.Foundation

universe u v

variable {ε : Type v} {α β : Type u}

/-- A result satisfies `post`, and a failure is an allowed one. -/
def Ends (fails : ε → Prop) (x : Except ε α) (post : α → Prop) : Prop :=
  match x with
  | .ok a => post a
  | .error e => fails e

variable {fails fails' : ε → Prop} {x : Except ε α} {post post' : α → Prop}

@[simp] theorem ends_ok {a : α} : Ends fails (.ok a) post ↔ post a := Iff.rfl

@[simp] theorem ends_error {e : ε} : Ends fails (.error e) post ↔ fails e := Iff.rfl

/-- **One after the other.** -/
theorem Ends.bind {f : α → Except ε β} {post' : β → Prop} (hx : Ends fails x post)
    (hf : ∀ a, post a → Ends fails (f a) post') : Ends fails (x >>= f) post' := by
  cases x with
  | ok a => exact hf a hx
  | error e => exact hx

/-- A step that surely gives a result. -/
theorem Ends.bind_of_ok {f : α → Except ε β} {post' : β → Prop} {a : α} (hx : x = .ok a)
    (hf : Ends fails (f a) post') : Ends fails (x >>= f) post' := by
  rw [hx]
  exact hf

theorem Ends.mono (h : Ends fails x post) (hp : ∀ a, post a → post' a) : Ends fails x post' := by
  cases x with
  | ok a => exact hp a h
  | error e => exact h

theorem Ends.weaken (h : Ends fails x post) (hf : ∀ e, fails e → fails' e) : Ends fails' x post := by
  cases x with
  | ok a => exact h
  | error e => exact hf e h

/-- What is known of a result. -/
theorem Ends.elim (h : Ends fails x post) {a : α} (hx : x = .ok a) : post a := by
  rw [hx] at h
  exact h

/-- Where no failure is allowed there is a result. -/
theorem Ends.exists_ok (h : Ends fails x post) (hf : ∀ e, ¬ fails e) : ∃ a, x = .ok a ∧ post a := by
  cases x with
  | ok a => exact ⟨a, rfl, h⟩
  | error e => exact absurd h (hf e)

theorem Ends.of_exists (h : ∃ a, x = .ok a ∧ post a) : Ends fails x post := by
  obtain ⟨a, rfl, ha⟩ := h
  exact ha

/-- A result with a property, found by computing it. -/
theorem exists_of_toOption_any {p : α → Bool} (h : x.toOption.any p = true) : ∃ a, x = .ok a ∧ p a = true := by
  cases x with
  | ok a => exact ⟨a, rfl, h⟩
  | error e => exact nomatch h

/-- The steps of a computation that gives a result give results. -/
theorem bind_eq_ok {f : α → Except ε β} {b : β} : (x >>= f) = .ok b ↔ ∃ a, x = .ok a ∧ f a = .ok b := by
  cases x with
  | ok a => simp [Bind.bind, Except.bind]
  | error e => simp [Bind.bind, Except.bind]

@[simp] theorem ok_bind (a : α) (f : α → Except ε β) : (Except.ok a >>= f) = f a := rfl

@[simp] theorem error_bind (e : ε) (f : α → Except ε β) : ((Except.error e : Except ε α) >>= f) = .error e := rfl

end MatchingEngine.Foundation
