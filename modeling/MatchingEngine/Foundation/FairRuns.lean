import Mathlib.Order.Filter.AtTopBot.Basic
import Mathlib.Order.WellFounded
import Mathlib.Tactic.Common

/-!
# Fair runs

A system whose next step somebody else picks: a scheduler that gives turns to threads, or a
network that lets a datagram through or not. Without fairness nothing need ever happen; the
two rules here say what happens under it.

Threads: if in every state that is not yet a goal one of them is a helper, whose turn lowers
the rank of the state, and no turn of another one raises it or takes the help away, then a
schedule in which everyone has turns again and again comes to a goal (`Helpful.reaches`).

Messages: a fair lossy channel lets through what is sent again and again (`FairLossy`). A count
that only grows and does not stay anywhere below a bound reaches the bound
(`exists_le_of_never_stays`).
-/

namespace MatchingEngine.Foundation

open Filter

/-! ### Threads -/

section Threads

variable {S T α : Type*} {step : S → T → S} {s : S} {turns : ℕ → T}

/-- The states of a run, one for each moment. -/
def statesOf (step : S → T → S) (s : S) (turns : ℕ → T) : ℕ → S
  | 0 => s
  | t + 1 => step (statesOf step s turns t) (turns t)

/-- Everyone has turns again and again. -/
def FairSchedule (turns : ℕ → T) : Prop := ∀ x, ∃ᶠ t in atTop, turns t = x

/-- What the steps keep holds throughout. -/
theorem statesOf_inv {inv : S → Prop} (hstep : ∀ s x, inv s → inv (step s x)) (hs : inv s) (t : ℕ) :
    inv (statesOf step s turns t) := by
  induction t with
  | zero => exact hs
  | succ t ih => exact hstep _ _ ih

/-- **Somebody can always help** on the way to a goal. -/
structure Helpful [Preorder α] (step : S → T → S) (inv goal : S → Prop) (rank : S → α) (helper : S → T) : Prop where
  /-- The invariant is kept. -/
  keeps : ∀ s x, inv s → inv (step s x)
  /-- The helper's turn lowers the rank. -/
  helps : ∀ s, inv s → ¬ goal s → rank (step s (helper s)) < rank s
  /-- Another one's turn does, or it changes neither the rank nor the helper. -/
  waits : ∀ s x, inv s → ¬ goal s →
    rank (step s x) < rank s ∨ rank (step s x) = rank s ∧ helper (step s x) = helper s

variable [Preorder α] {inv goal : S → Prop} {rank : S → α} {helper : S → T}

/-- From one moment to a later one the goal is reached, the rank gets lower, or the helper stays. -/
theorem Helpful.between (h : Helpful step inv goal rank helper) (hs : inv s) (turns : ℕ → T) {t v : ℕ} (htv : t ≤ v) :
    (∃ u, t ≤ u ∧ (goal (statesOf step s turns u) ∨
        rank (statesOf step s turns u) < rank (statesOf step s turns t))) ∨
      rank (statesOf step s turns v) = rank (statesOf step s turns t) ∧
        helper (statesOf step s turns v) = helper (statesOf step s turns t) := by
  induction v, htv using Nat.le_induction with
  | base => exact .inr ⟨rfl, rfl⟩
  | succ v htv ih =>
    obtain hsooner | ⟨hrank, hhelper⟩ := ih
    · exact .inl hsooner
    by_cases hgoal : goal (statesOf step s turns v)
    · exact .inl ⟨v, htv, .inl hgoal⟩
    obtain hlower | ⟨hsame, hstays⟩ := h.waits _ (turns v) (statesOf_inv h.keeps hs v) hgoal
    · exact .inl ⟨v + 1, by omega, .inr (hrank ▸ hlower)⟩
    · exact .inr ⟨hsame.trans hrank, hstays.trans hhelper⟩

/-- **A fair schedule reaches a goal.** -/
theorem Helpful.reaches [WellFoundedLT α] (h : Helpful step inv goal rank helper) (hs : inv s)
    (hfair : FairSchedule turns) : ∃ t, goal (statesOf step s turns t) := by
  suffices hfrom : ∀ r t, rank (statesOf step s turns t) = r → ∃ u, goal (statesOf step s turns u) from hfrom _ 0 rfl
  intro r
  induction r using WellFoundedLT.induction with
  | ind r ih =>
    rintro t rfl
    obtain ⟨v, htv, hturn⟩ := frequently_atTop.mp (hfair (helper (statesOf step s turns t))) t
    obtain ⟨u, -, hgoal | hlower⟩ | ⟨hrank, hhelper⟩ := h.between hs turns htv
    · exact ⟨u, hgoal⟩
    · exact ih _ hlower u rfl
    by_cases hgoal : goal (statesOf step s turns v)
    · exact ⟨v, hgoal⟩
    have hlower := h.helps _ (statesOf_inv h.keeps hs v) hgoal
    rw [hhelper, ← hturn, hrank] at hlower
    exact ih _ hlower (v + 1) rfl

end Threads

/-! ### Messages -/

section Messages

variable {M N : Type*} {sent arrives : ℕ → M → Prop}

/-- **A fair lossy channel**: it may lose any message, but not one that is sent again and again. -/
def FairLossy (sent arrives : ℕ → M → Prop) : Prop :=
  ∀ m, (∃ᶠ t in atTop, sent t m) → ∃ᶠ t in atTop, arrives t m

/-- Where an arrival is answered with another message, from some moment on, that one is sent again and again. -/
theorem FairLossy.answered {answers : ℕ → N → Prop} (h : FairLossy sent arrives) {m : M} {n : N} {since : ℕ}
    (hsent : ∃ᶠ t in atTop, sent t m) (hanswer : ∀ t, since ≤ t → arrives t m → answers t n) :
    ∃ᶠ t in atTop, answers t n :=
  ((h m hsent).and_eventually (eventually_ge_atTop since)).mono fun t ht => hanswer t ht.2 ht.1

/-- **A count that only grows**, and that does not stay anywhere below a bound, reaches the bound. -/
theorem exists_le_of_never_stays {f : ℕ → ℕ} (hf : Monotone f) {bound : ℕ}
    (hstay : ∀ n since, n < bound → ¬ ∀ t, since ≤ t → f t = n) : ∃ t, bound ≤ f t := by
  suffices hfrom : ∀ k t, bound - f t = k → ∃ u, bound ≤ f u from hfrom _ 0 rfl
  intro k
  induction k using Nat.strong_induction_on with
  | _ k ih =>
    rintro t rfl
    by_cases hlt : f t < bound
    · obtain ⟨u, htu, hne⟩ : ∃ u, t ≤ u ∧ f u ≠ f t := by
        by_contra hnone
        exact hstay (f t) t hlt fun u htu => by_contra fun hne => hnone ⟨u, htu, hne⟩
      have hgrown := hf htu
      exact ih (bound - f u) (by omega) u rfl
    · exact ⟨t, not_lt.mp hlt⟩

end Messages

end MatchingEngine.Foundation
