import Mathlib.Data.List.Nodup
import Mathlib.Logic.Function.Basic

/-!
# Counting the entries of a table

A table gives some keys a value, and some values belong to a class. `tally` counts the keys
of a list whose values belong to a given class. Writing an entry under a new key adds one to
the class of the entry, and erasing the entry takes it away again: a program that keeps
counters of its own, by class, can be held against these laws.
-/

namespace MatchingEngine.Foundation

variable {I V K : Type*} [DecidableEq K] {group : V → Option K} {t t' : I → Option V} {is : List I}
  {i : I} {v : V} {k : K}

/-- How many of the keys `is` have a value that belongs to the class `k`. -/
def tally (group : V → Option K) (t : I → Option V) (is : List I) (k : K) : ℕ :=
  is.countP fun i => (t i).bind group = some k

theorem tally_congr (h : ∀ i ∈ is, t i = t' i) : tally group t is k = tally group t' is k := by
  refine List.countP_congr fun i hi => ?_
  rw [h i hi]

/-- A key without an entry does not count. -/
theorem tally_snoc_none (h : t i = none) : tally group t (is ++ [i]) k = tally group t is k := by
  simp [tally, h]

/-- **An entry is written** under a new key. -/
theorem tally_insert [DecidableEq I] (hi : i ∉ is) :
    tally group (Function.update t i (some v)) (is ++ [i]) k =
      tally group t is k + if group v = some k then 1 else 0 := by
  have hold : is.countP (fun j => (Function.update t i (some v) j).bind group = some k) = tally group t is k := by
    apply tally_congr
    intro j hj
    rw [Function.update_of_ne]
    rintro rfl
    exact hi hj
  rw [tally, List.countP_append, hold]
  by_cases hk : group v = some k <;> simp [hk]

/-- **An entry is erased.** -/
theorem tally_erase [DecidableEq I] (hnd : is.Nodup) (hi : i ∈ is) (hv : t i = some v) :
    tally group (Function.update t i none) is k + (if group v = some k then 1 else 0) = tally group t is k := by
  induction is with
  | nil => cases hi
  | cons j is ih =>
    rw [List.nodup_cons] at hnd
    by_cases hj : j = i
    · -- the entry itself, which is under no other key
      subst hj
      have hrest : tally group (Function.update t j none) is k = tally group t is k := by
        apply tally_congr
        intro l hl
        rw [Function.update_of_ne]
        rintro rfl
        exact hnd.1 hl
      have hhead : tally group (Function.update t j none) (j :: is) k = tally group t is k := by
        rw [← hrest]
        simp [tally]
      rw [hhead]
      by_cases hk : group v = some k <;> simp [tally, hv, hk]
    · have ih := ih hnd.2 ((List.mem_cons.mp hi).resolve_left (Ne.symm hj))
      have hcons : ∀ u : I → Option V, tally group u (j :: is) k =
          tally group u is k + if (u j).bind group = some k then 1 else 0 := by
        intro u
        simp [tally, List.countP_cons]
      rw [hcons, hcons, Function.update_of_ne hj]
      omega

/-- An entry counts. -/
theorem tally_pos (hi : i ∈ is) (hv : t i = some v) (hk : group v = some k) : 0 < tally group t is k := by
  rw [tally, List.countP_pos_iff]
  exact ⟨i, hi, by simp [hv, hk]⟩

/-- **What is counted is there.** -/
theorem exists_of_tally_pos (h : 0 < tally group t is k) : ∃ i ∈ is, ∃ v, t i = some v ∧ group v = some k := by
  obtain ⟨i, hi, hk⟩ := List.countP_pos_iff.mp h
  exact ⟨i, hi, Option.bind_eq_some_iff.mp (of_decide_eq_true hk)⟩

end MatchingEngine.Foundation
