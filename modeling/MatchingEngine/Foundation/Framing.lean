import Mathlib.Data.List.Basic
import Mathlib.Data.List.Infix
import Mathlib.Tactic.Common

/-!
# Frames in a stream

A stream in which values stand one after the other, each written as a frame that shows where it
ends: no frame is the beginning of another one (`PrefixFree`). Every stream can be taken apart into
frames and a rest that begins with none (`exists_written`), and a stream that has been cut off gives
the frames that are still whole (`take_written`).
-/

namespace MatchingEngine.Foundation

variable {α β : Type*} {frame : β → List α}

/-- **Frames show where they end.** -/
structure PrefixFree (frame : β → List α) : Prop where
  /-- A frame is not empty. -/
  ne_nil : ∀ b, frame b ≠ []
  /-- No frame is the beginning of another one. -/
  eq_of_prefix : ∀ {b b'}, frame b <+: frame b' → b = b'

/-- A stream of frames. -/
def written (frame : β → List α) (bs : List β) : List α := bs.flatMap frame

@[simp] theorem written_nil : written frame [] = [] := rfl

@[simp] theorem written_cons (b : β) (bs : List β) : written frame (b :: bs) = frame b ++ written frame bs := rfl

/-- No frame is at the beginning: there is nothing, or something else, or only a part of a frame. -/
def NoFrame (frame : β → List α) (rest : List α) : Prop := ∀ b, ¬ frame b <+: rest

/-- How many frames are whole in the first `k` places of a stream. -/
def wholeIn (frame : β → List α) : ℕ → List β → ℕ
  | _, [] => 0
  | k, b :: bs => if (frame b).length ≤ k then wholeIn frame (k - (frame b).length) bs + 1 else 0

theorem PrefixFree.noFrame_nil (h : PrefixFree frame) : NoFrame frame [] := fun b hb =>
  h.ne_nil b (List.prefix_nil.mp hb)

/-- A part of a frame contains no frame at its beginning. -/
theorem PrefixFree.noFrame_take (h : PrefixFree frame) {b : β} {k : ℕ} (hk : k < (frame b).length) :
    NoFrame frame ((frame b).take k) := by
  intro b' hb'
  obtain rfl := h.eq_of_prefix (hb'.trans (List.take_prefix k (frame b)))
  have hlen := hb'.length_le
  rw [List.length_take] at hlen
  omega

/-- **Every stream** is one of frames, with a rest. -/
theorem PrefixFree.exists_written (h : PrefixFree frame) (s : List α) :
    ∃ bs rest, s = written frame bs ++ rest ∧ NoFrame frame rest := by
  induction hn : s.length using Nat.strong_induction_on generalizing s with
  | _ n ih =>
    by_cases hs : NoFrame frame s
    · exact ⟨[], s, rfl, hs⟩
    · obtain ⟨b, hb⟩ := not_forall.mp hs
      obtain ⟨t, rfl⟩ := not_not.mp hb
      have hpos := List.length_pos_of_ne_nil (h.ne_nil b)
      rw [List.length_append] at hn
      obtain ⟨bs, rest, rfl, hrest⟩ := ih t.length (by omega) t rfl
      exact ⟨b :: bs, rest, by rw [written_cons, List.append_assoc], hrest⟩

/-- **A stream that has been cut off** gives the frames that are whole. -/
theorem PrefixFree.take_written (h : PrefixFree frame) (k : ℕ) (bs : List β) :
    ∃ rest, (written frame bs).take k = written frame (bs.take (wholeIn frame k bs)) ++ rest ∧ NoFrame frame rest := by
  induction bs generalizing k with
  | nil => exact ⟨[], by simp, h.noFrame_nil⟩
  | cons b bs ih =>
    rw [wholeIn, written_cons]
    split_ifs with hk
    · obtain ⟨rest, he, hrest⟩ := ih (k - (frame b).length)
      refine ⟨rest, ?_, hrest⟩
      rw [List.take_append, List.take_of_length_le hk, he, List.take_succ_cons, written_cons, List.append_assoc]
    · refine ⟨(frame b).take k, ?_, h.noFrame_take (by omega)⟩
      rw [List.take_append_of_le_length (by omega), List.take_zero, written_nil, List.nil_append]

end MatchingEngine.Foundation
