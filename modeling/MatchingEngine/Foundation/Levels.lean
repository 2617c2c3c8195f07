import Mathlib.Data.List.Nodup
import Mathlib.Order.Basic

/-!
# Lists kept level by level

A family of lists `q`, one for each level `0, 1, 2, …`, read in one of two directions:
upwards from a level through so many levels (`up`), or downwards from below a level to the
bottom (`down`). Empty levels do not show, so the same list is read from different places
(`up_skip`, `down_skip`), and what is done to every level is done to the reading
(`up_hom`, `down_hom`).
-/

namespace MatchingEngine.Foundation

variable {α β : Type*} {q q' : ℕ → List α}

/-- Levels `i, i + 1, …`, so many of them. -/
def up (q : ℕ → List α) : ℕ → ℕ → List α
  | 0, _ => []
  | n + 1, i => q i ++ up q n (i + 1)

/-- The levels below `i`, from the top. -/
def down (q : ℕ → List α) : ℕ → List α
  | 0 => []
  | i + 1 => q i ++ down q i

theorem mem_up {n i : ℕ} {x : α} : x ∈ up q n i ↔ ∃ j, i ≤ j ∧ j < i + n ∧ x ∈ q j := by
  induction n generalizing i with
  | zero => simpa [up] using fun j h1 h2 => absurd h2 (by omega)
  | succ n ih =>
    rw [up, List.mem_append, ih]
    constructor
    · rintro (h | ⟨j, h1, h2, h3⟩)
      · exact ⟨i, by omega, by omega, h⟩
      · exact ⟨j, by omega, by omega, h3⟩
    · rintro ⟨j, h1, h2, h3⟩
      rcases Nat.eq_or_lt_of_le h1 with rfl | h1
      · exact Or.inl h3
      · exact Or.inr ⟨j, h1, by omega, h3⟩

theorem mem_down {i : ℕ} {x : α} : x ∈ down q i ↔ ∃ j < i, x ∈ q j := by
  induction i with
  | zero => simp [down]
  | succ i ih =>
    rw [down, List.mem_append, ih]
    constructor
    · rintro (h | ⟨j, h1, h2⟩)
      · exact ⟨i, by omega, h⟩
      · exact ⟨j, by omega, h2⟩
    · rintro ⟨j, h1, h2⟩
      rcases Nat.eq_or_lt_of_le (Nat.le_of_lt_succ h1) with rfl | h1
      · exact Or.inl h2
      · exact Or.inr ⟨j, h1, h2⟩

theorem up_congr {n i : ℕ} (h : ∀ j, i ≤ j → j < i + n → q j = q' j) : up q n i = up q' n i := by
  induction n generalizing i with
  | zero => rfl
  | succ n ih =>
    rw [up, up, h i (Nat.le_refl i) (by omega), ih fun j h1 h2 => h j (by omega) (by omega)]

theorem down_congr {i : ℕ} (h : ∀ j < i, q j = q' j) : down q i = down q' i := by
  induction i with
  | zero => rfl
  | succ i ih => rw [down, down, h i (by omega), ih fun j hj => h j (by omega)]

theorem up_add (q : ℕ → List α) (n m i : ℕ) : up q (n + m) i = up q n i ++ up q m (i + n) := by
  induction n generalizing i with
  | zero => simp [up]
  | succ n ih =>
    rw [Nat.add_right_comm, up, up, ih, List.append_assoc, Nat.add_right_comm i 1 n, Nat.add_assoc]

/-- The levels below `i + n`: those from `i` on, and those below `i`. -/
theorem down_add (q : ℕ → List α) (n i : ℕ) : down q (i + n) = down (fun j => q (i + j)) n ++ down q i := by
  induction n with
  | zero => simp [down]
  | succ n ih => rw [← Nat.add_assoc, down, down, ih, List.append_assoc]

theorem up_eq_nil {n i : ℕ} (h : ∀ j, i ≤ j → j < i + n → q j = []) : up q n i = [] := by
  rw [List.eq_nil_iff_forall_not_mem]
  intro x hx
  obtain ⟨j, h1, h2, h3⟩ := mem_up.mp hx
  rw [h j h1 h2] at h3
  cases h3

theorem down_eq_nil {i : ℕ} (h : ∀ j < i, q j = []) : down q i = [] := by
  rw [List.eq_nil_iff_forall_not_mem]
  intro x hx
  obtain ⟨j, h1, h2⟩ := mem_down.mp hx
  rw [h j h1] at h2
  cases h2

/-- **Empty levels at the start do not show**, read upwards to a fixed level `top`. -/
theorem up_skip {top i k : ℕ} (hik : i ≤ k) (hk : k ≤ top) (h : ∀ j, i ≤ j → j < k → q j = []) :
    up q (top - i) i = up q (top - k) k := by
  have e : top - i = (k - i) + (top - k) := by omega
  rw [e, up_add, up_eq_nil fun j h1 h2 => h j h1 (by omega), List.nil_append]
  congr 1
  omega

/-- **Empty levels at the top do not show**, read downwards. -/
theorem down_skip {i k : ℕ} (hik : i ≤ k) (h : ∀ j, i ≤ j → j < k → q j = []) : down q k = down q i := by
  obtain ⟨n, rfl⟩ := Nat.exists_eq_add_of_le hik
  rw [down_add, down_eq_nil fun j hj => h (i + j) (by omega) (by omega), List.nil_append]

/-- The first level that is read. -/
theorem up_first {top k : ℕ} (hk : k < top) : up q (top - k) k = q k ++ up q (top - (k + 1)) (k + 1) := by
  have e : top - k = (top - (k + 1)) + 1 := by omega
  rw [e, up]

/-- A change of every level that respects `++` is a change of what is read. -/
theorem up_hom (f : List α → List β) (hnil : f [] = []) (happ : ∀ xs ys, f (xs ++ ys) = f xs ++ f ys)
    (n i : ℕ) : up (fun j => f (q j)) n i = f (up q n i) := by
  induction n generalizing i with
  | zero => simp [up, hnil]
  | succ n ih => rw [up, up, ih, happ]

theorem down_hom (f : List α → List β) (hnil : f [] = []) (happ : ∀ xs ys, f (xs ++ ys) = f xs ++ f ys)
    (i : ℕ) : down (fun j => f (q j)) i = f (down q i) := by
  induction i with
  | zero => simp [down, hnil]
  | succ i ih => rw [down, down, ih, happ]

/-- All levels moved up by `k`. -/
def shiftUp (k : ℕ) (q : ℕ → List α) (j : ℕ) : List α := if j < k then [] else q (j - k)

@[simp] theorem shiftUp_add (k : ℕ) (q : ℕ → List α) (j : ℕ) : shiftUp k q (j + k) = q j := by
  rw [shiftUp, if_neg (by omega), Nat.add_sub_cancel]

theorem shiftUp_ne_nil {k j : ℕ} (h : shiftUp k q j ≠ []) : ∃ i, j = i + k ∧ q i ≠ [] := by
  rw [shiftUp] at h
  split_ifs at h with hj
  · exact absurd rfl h
  · exact ⟨j - k, by omega, h⟩

theorem mem_shiftUp {k j : ℕ} {x : α} : x ∈ shiftUp k q j ↔ ∃ i, j = i + k ∧ x ∈ q i := by
  rw [shiftUp]
  split_ifs with hj
  · simpa using fun i hi => absurd hi (by omega)
  · constructor
    · exact fun h => ⟨j - k, by omega, h⟩
    · rintro ⟨i, rfl, h⟩
      rwa [Nat.add_sub_cancel]

theorem up_shiftUp (k : ℕ) (q : ℕ → List α) (n i : ℕ) : up (shiftUp k q) n (i + k) = up q n i := by
  induction n generalizing i with
  | zero => rfl
  | succ n ih => rw [up, up, shiftUp_add, Nat.add_right_comm, ih]

theorem down_shiftUp (k : ℕ) (q : ℕ → List α) (i : ℕ) : down (shiftUp k q) (i + k) = down q i := by
  have hlow : down (shiftUp k q) k = [] := down_eq_nil fun j hj => by rw [shiftUp, if_pos hj]
  rw [Nat.add_comm, down_add, hlow, List.append_nil]
  exact down_congr fun j _ => by rw [Nat.add_comm, shiftUp_add]

/-- Levels whose lists have no element in common, and none twice, are read without one. -/
theorem nodup_up (hnd : ∀ i, (q i).Nodup) (hdis : ∀ {i j x}, x ∈ q i → x ∈ q j → i = j) (n i : ℕ) :
    (up q n i).Nodup := by
  induction n generalizing i with
  | zero => exact List.nodup_nil
  | succ n ih =>
    rw [up, List.nodup_append]
    refine ⟨hnd i, ih _, fun x hx y hy e => ?_⟩
    obtain ⟨j, h1, -, h3⟩ := mem_up.mp hy
    have := hdis hx (e ▸ h3)
    omega

/-- **Read upwards**, levels come one after the other. -/
theorem pairwise_up {R : α → α → Prop} (hone : ∀ i, (q i).Pairwise R)
    (htwo : ∀ {i j}, i < j → ∀ x ∈ q i, ∀ y ∈ q j, R x y) (n i : ℕ) : (up q n i).Pairwise R := by
  induction n generalizing i with
  | zero => exact List.Pairwise.nil
  | succ n ih =>
    rw [up, List.pairwise_append]
    refine ⟨hone i, ih _, fun x hx y hy => ?_⟩
    obtain ⟨j, h1, -, h3⟩ := mem_up.mp hy
    exact htwo (by omega) x hx y h3

theorem pairwise_down {R : α → α → Prop} (hone : ∀ i, (q i).Pairwise R)
    (htwo : ∀ {i j}, j < i → ∀ x ∈ q i, ∀ y ∈ q j, R x y) (i : ℕ) : (down q i).Pairwise R := by
  induction i with
  | zero => exact List.Pairwise.nil
  | succ i ih =>
    rw [down, List.pairwise_append]
    refine ⟨hone i, ih, fun x hx y hy => ?_⟩
    obtain ⟨j, h1, h3⟩ := mem_down.mp hy
    exact htwo h1 x hx y h3

/-- The levels below `i`, read in either direction, are the same elements. -/
theorem down_perm_up (q : ℕ → List α) (i : ℕ) : (down q i).Perm (up q i 0) := by
  induction i with
  | zero => exact List.Perm.refl _
  | succ i ih =>
    rw [down, up_add q i 1 0, Nat.zero_add]
    simp only [up, List.append_nil]
    exact (List.perm_append_comm).trans (ih.append_right _)

/-- The levels that are read, one after the other. -/
theorem up_eq_flatMap (q : ℕ → List α) (n i : ℕ) : up q n i = (List.range' i n).flatMap q := by
  induction n generalizing i with
  | zero => rfl
  | succ n ih => rw [up, ih, List.range'_succ, List.flatMap_cons]

theorem down_eq_flatMap (q : ℕ → List α) (i : ℕ) : down q i = (List.range i).reverse.flatMap q := by
  induction i with
  | zero => rfl
  | succ i ih => rw [down, ih, List.range_succ, List.reverse_append, List.reverse_singleton, List.singleton_append,
      List.flatMap_cons]

/-- A level that is read shows as it is. -/
theorem sublist_up {n i j : ℕ} (h1 : i ≤ j) (h2 : j < i + n) : (q j).Sublist (up q n i) := by
  have hj : j ∈ List.range' i n := List.mem_range'_1.mpr ⟨h1, h2⟩
  rw [up_eq_flatMap, List.flatMap]
  exact List.sublist_flatten_of_mem (List.mem_map_of_mem hj)

theorem sublist_down {i j : ℕ} (h : j < i) : (q j).Sublist (down q i) := by
  have hj : j ∈ (List.range i).reverse := List.mem_reverse.mpr (List.mem_range.mpr h)
  rw [down_eq_flatMap, List.flatMap]
  exact List.sublist_flatten_of_mem (List.mem_map_of_mem hj)

end MatchingEngine.Foundation
