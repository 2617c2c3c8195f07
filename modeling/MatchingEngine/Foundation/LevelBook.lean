import MatchingEngine.Foundation.Levels
import MatchingEngine.Foundation.PriceTime
import Mathlib.Logic.Function.Basic

/-!
# A side of a book kept level by level

Price-time priority over a family of queues `q`, one for each level, where every order of
level `j` has the price `price j`. An order joins the side by joining the queue of its level,
whether the side is read upwards (`enqueue_up`) or downwards (`enqueue_down`).
-/

namespace MatchingEngine.Foundation

open Function

variable {P I : Type*} {q : ℕ → List (Order P I)} {price : ℕ → P} {ahead : P → P → Bool} {o : Order P I} {i : ℕ}

/-- **Joining a side that is read downwards**, where lower levels are worse. -/
theorem enqueue_down {k : ℕ} (hq : ∀ j, ∀ x ∈ q j, x.price = price j) (ho : o.price = price i) (hi : i < k)
    (hbelow : ∀ j < i, ahead (price i) (price j)) (habove : ∀ j, i ≤ j → ahead (price i) (price j) = false) :
    enqueue ahead o (down q k) = down (update q i (q i ++ [o])) k := by
  have hother : ∀ j, j ≠ i → update q i (q i ++ [o]) j = q j := fun j hj => update_of_ne hj _ _
  obtain ⟨m, rfl⟩ := Nat.exists_eq_add_of_le (show i + 1 ≤ k from hi)
  have hsplit : ∀ q' : ℕ → List (Order P I),
      down q' (i + 1 + m) = (down (fun j => q' (i + 1 + j)) m ++ q' i) ++ down q' i := by
    intro q'
    rw [down_add q' m (i + 1), List.append_assoc]
    rfl
  rw [hsplit, hsplit, update_self, down_congr (fun j _ => hother (i + 1 + j) (by omega) : ∀ j < m, _),
    down_congr (fun j hj => hother j (by omega) : ∀ j < i, _), enqueue_append]
  · simp only [List.append_assoc, List.singleton_append]
  · intro x hx
    rw [List.mem_append, mem_down] at hx
    rcases hx with ⟨j, -, hx⟩ | hx
    · rw [ho, hq _ x hx]
      exact habove _ (by omega)
    · rw [ho, hq _ x hx]
      exact habove _ (Nat.le_refl i)
  · intro x hx
    obtain ⟨j, hj, hx⟩ := mem_down.mp (List.mem_of_mem_head? hx)
    rw [ho, hq _ x hx]
    exact hbelow j hj

/-- **Joining a side that is read upwards**, where higher levels are worse. -/
theorem enqueue_up {top k : ℕ} (hq : ∀ j, ∀ x ∈ q j, x.price = price j) (ho : o.price = price i) (hk : k ≤ i)
    (hi : i < top) (habove : ∀ j, i < j → ahead (price i) (price j))
    (hbelow : ∀ j ≤ i, ahead (price i) (price j) = false) :
    enqueue ahead o (up q (top - k) k) = up (update q i (q i ++ [o])) (top - k) k := by
  have hother : ∀ j, j ≠ i → update q i (q i ++ [o]) j = q j := fun j hj => update_of_ne hj _ _
  have hsplit : ∀ q' : ℕ → List (Order P I), up q' (top - k) k =
      (up q' (i - k) k ++ q' i) ++ up q' (top - (i + 1)) (i + 1) := by
    intro q'
    have e : top - k = (i - k) + (top - i) := by omega
    have e' : k + (i - k) = i := by omega
    rw [e, up_add, e', up_first hi, List.append_assoc]
  rw [hsplit, hsplit, update_self,
    up_congr (fun j _ h2 => hother j (by omega) : ∀ j, k ≤ j → j < k + (i - k) → _),
    up_congr (fun j h1 _ => hother j (by omega) : ∀ j, i + 1 ≤ j → j < i + 1 + (top - (i + 1)) → _)]
  rw [enqueue_append]
  · simp only [List.append_assoc, List.singleton_append]
  · intro x hx
    rw [List.mem_append, mem_up] at hx
    rcases hx with ⟨j, -, hj, hx⟩ | hx
    · rw [ho, hq _ x hx]
      exact hbelow _ (by omega)
    · rw [ho, hq _ x hx]
      exact hbelow _ (Nat.le_refl i)
  · intro x hx
    obtain ⟨j, hj, -, hx⟩ := mem_up.mp (List.mem_of_mem_head? hx)
    rw [ho, hq _ x hx]
    exact habove j hj

end MatchingEngine.Foundation
