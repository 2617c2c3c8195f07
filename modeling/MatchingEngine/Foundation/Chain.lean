import Mathlib.Data.List.Nodup
import Mathlib.Logic.Function.Basic

/-!
# Doubly linked lists by index

An *intrusive* doubly linked list keeps its links in the cells themselves: cell
`x` names its predecessor `prev x` and its successor `next x`, and a reserved
index stands for "no cell". This module says when the links of some cells form a
list (`Chain`), and what the usual pointer surgery does to one: linking a cell at
the end (`Chain.push`), unlinking a cell anywhere (`Chain.unlink`), and walking
the list from its head (`Chain.walk_eq`).

The links are two functions, so a cell may carry any other data; the lemmas ask
only what the links of the cells of one list are before and after.
-/

namespace MatchingEngine.Foundation

variable {ι : Type*} {prev next prev' next' : ι → ι} {p q n : ι} {xs ys : List ι}

/-- `Chain prev next p xs q`: the cells `xs`, in this order, are doubly linked,
between the cell `p` before them and the cell `q` after them. -/
def Chain (prev next : ι → ι) : ι → List ι → ι → Prop
  | _, [], _ => True
  | p, x :: xs, q => prev x = p ∧ next x = xs.headD q ∧ Chain prev next x xs q

@[simp] theorem chain_nil : Chain prev next p [] q := trivial

@[simp] theorem chain_cons {x : ι} :
    Chain prev next p (x :: xs) q ↔ prev x = p ∧ next x = xs.headD q ∧ Chain prev next x xs q :=
  Iff.rfl

/-- The last cell of a list is one of its cells. -/
theorem getLastD_mem_or (p : ι) (xs : List ι) : xs.getLastD p ∈ xs ∨ xs = [] := by
  rcases xs.eq_nil_or_concat with rfl | ⟨xs', x, rfl⟩
  · exact Or.inr rfl
  · exact Or.inl (by simp)

theorem headD_mem_or (q : ι) (xs : List ι) : xs.headD q ∈ xs ∨ xs = [] := by
  cases xs with
  | nil => exact Or.inr rfl
  | cons x xs => exact Or.inl (by simp)

/-- Only the links of the cells themselves matter. -/
theorem Chain.congr (h : Chain prev next p xs q) (hp : ∀ x ∈ xs, prev' x = prev x)
    (hn : ∀ x ∈ xs, next' x = next x) : Chain prev' next' p xs q := by
  induction xs generalizing p with
  | nil => trivial
  | cons x xs ih =>
    obtain ⟨h1, h2, h3⟩ := h
    refine ⟨(hp x (by simp)).trans h1, (hn x (by simp)).trans h2, ih h3 ?_ ?_⟩
    · exact fun y hy => hp y (by simp [hy])
    · exact fun y hy => hn y (by simp [hy])

theorem chain_append :
    Chain prev next p (xs ++ ys) q ↔
      Chain prev next p xs (ys.headD q) ∧ Chain prev next (xs.getLastD p) ys q := by
  induction xs generalizing p with
  | nil => simp
  | cons x xs ih =>
    have hh : (xs ++ ys).headD q = xs.headD (ys.headD q) := by cases xs <;> rfl
    have hl : (x :: xs).getLastD p = xs.getLastD x := by cases xs <;> rfl
    simp only [List.cons_append, chain_cons, ih, hh, hl, and_assoc]

/-- The links of a cell in the middle name its neighbours. -/
theorem Chain.mid (h : Chain prev next p (xs ++ n :: ys) q) :
    prev n = xs.getLastD p ∧ next n = ys.headD q := by
  obtain ⟨-, h1, h2, -⟩ := chain_append.mp h
  exact ⟨h1, h2⟩

variable [DecidableEq ι]

/-- The cells before a cut get a new cell after them: the last one's `next` moves. -/
theorem Chain.relink {q' : ι} (h : Chain prev next p xs q) (hnd : xs.Nodup)
    (hp : ∀ x ∈ xs, prev' x = prev x)
    (hn : ∀ x ∈ xs, next' x = if x = xs.getLastD p then q' else next x) :
    Chain prev' next' p xs q' := by
  induction xs generalizing p with
  | nil => trivial
  | cons x xs ih =>
    obtain ⟨h1, h2, h3⟩ := h
    obtain ⟨hx, hnd'⟩ := List.nodup_cons.mp hnd
    have hl : (x :: xs).getLastD p = xs.getLastD x := by cases xs <;> rfl
    rw [hl] at hn
    refine ⟨(hp x (by simp)).trans h1, ?_, ih h3 hnd' ?_ ?_⟩
    · rw [hn x (by simp)]
      rcases getLastD_mem_or x xs with hm | rfl
      · -- the last cell is another one, so this cell's successor stays
        have hne : x ≠ xs.getLastD x := fun e => hx (e ▸ hm)
        rw [if_neg hne, h2]
        cases xs with
        | nil => simp at hm
        | cons y ys => rfl
      · simp
    · exact fun y hy => hp y (by simp [hy])
    · exact fun y hy => hn y (by simp [hy])

/-- **Linking a cell at the end**: the old last cell, if there is one, gets the
new cell as its successor. -/
theorem Chain.push (h : Chain prev next p xs q) (hnd : xs.Nodup)
    (hp : ∀ x ∈ xs, prev' x = prev x)
    (hn : ∀ x ∈ xs, next' x = if x = xs.getLastD p then n else next x)
    (hpn : prev' n = xs.getLastD p) (hnn : next' n = q) : Chain prev' next' p (xs ++ [n]) q :=
  chain_append.mpr ⟨h.relink hnd hp hn, hpn, hnn, trivial⟩

/-- **Unlinking a cell**: its neighbours are joined, and nothing else moves. -/
theorem Chain.unlink (h : Chain prev next p (xs ++ n :: ys) q) (hnd : (xs ++ n :: ys).Nodup)
    (hpm : p ∉ xs ++ n :: ys) (hqm : q ∉ xs ++ n :: ys)
    (hn : ∀ x ∈ xs ++ ys, next' x = if x = prev n then next n else next x)
    (hp : ∀ x ∈ xs ++ ys, prev' x = if x = next n then prev n else prev x) :
    Chain prev' next' p (xs ++ ys) q := by
  obtain ⟨hpv, hnx⟩ := h.mid
  obtain ⟨hxs, -, -, hys⟩ := chain_append.mp h
  have hdis := List.nodup_append.mp hnd
  have hny := List.nodup_cons.mp hdis.2.1
  rw [hpv, hnx] at hn hp
  refine chain_append.mpr ⟨hxs.relink hdis.1 (fun x hx => ?_) (fun x hx => ?_), ?_⟩
  · have hne : x ≠ ys.headD q := by
      rcases headD_mem_or q ys with hm | rfl
      · exact hdis.2.2 x hx _ (List.mem_cons_of_mem _ hm)
      · rintro rfl; exact hqm (List.mem_append_left _ hx)
    rw [hp x (by simp [hx]), if_neg hne]
  · exact hn x (by simp [hx])
  · cases ys with
    | nil => trivial
    | cons y ys =>
      have hlast : ∀ z ∈ y :: ys, z ≠ xs.getLastD p := by
        intro z hz
        rcases getLastD_mem_or p xs with hm | rfl
        · exact (hdis.2.2 _ hm z (by simp [hz])).symm
        · rintro rfl; exact hpm (by simp only [List.nil_append]; exact List.mem_cons_of_mem _ hz)
      obtain ⟨-, h2, h3⟩ := hys
      refine ⟨?_, ?_, h3.congr (fun z hz => ?_) (fun z hz => ?_)⟩
      · rw [hp y (by simp)]; simp
      · rw [hn y (by simp), if_neg (hlast y (by simp)), h2]
      · have hzy : z ≠ y := by rintro rfl; exact (List.nodup_cons.mp hny.2).1 hz
        rw [hp z (by simp [hz]), if_neg (by simpa using hzy)]
      · rw [hn z (by simp [hz]), if_neg (hlast z (by simp [hz]))]

/-- Follow `next` from cell `x` until the index `nil`, for at most so many cells. -/
def walk (next : ι → ι) (nil : ι) : ℕ → ι → List ι
  | 0, _ => []
  | fuel + 1, x => if x = nil then [] else x :: walk next nil fuel (next x)

/-- **A list is what the walk from its head visits.** -/
theorem Chain.walk_eq (h : Chain prev next p xs q) (hq : q ∉ xs) {fuel : ℕ}
    (hf : xs.length ≤ fuel) : walk next q fuel (xs.headD q) = xs := by
  induction xs generalizing p fuel with
  | nil => cases fuel <;> simp [walk]
  | cons x xs ih =>
    obtain ⟨-, h2, h3⟩ := h
    obtain ⟨hx, hq'⟩ := not_or.mp (List.mem_cons.not.mp hq)
    cases fuel with
    | zero => simp at hf
    | succ fuel =>
      simp only [List.headD_cons, walk, if_neg (Ne.symm hx), h2]
      rw [ih h3 hq' (by simpa using hf)]

end MatchingEngine.Foundation
