import Mathlib.Control.Monad.Writer
import MatchingEngine.Foundation.Outcome

/-!
# What a computation logs

A computation of type `WriterT (List σ) (Except ε) α` is a fallible one that logs what it does.
`Logs post x y` says that `x` is `y` with a log: it fails where `y` fails, and where `y` gives a
result `a` it gives the same one, with a log `es` such that `post a es`. The rules follow the
shape of the program, which the two have in common.
-/

namespace MatchingEngine.Foundation

variable {σ ε α β : Type}

/-- Only the first of two steps logs anything. -/
theorem run_bind_of_silent {M : Type → Type} [Monad M] [LawfulMonad M] {x : WriterT (List σ) M α} {y : M α}
    {f : α → WriterT (List σ) M β} {g : α → M β} {es : List σ} (hx : x.run = (fun a => (a, es)) <$> y)
    (hf : ∀ a, (f a).run = (fun b => (b, [])) <$> g a) : (x >>= f).run = (fun b => (b, es)) <$> (y >>= g) := by
  rw [WriterT.run_bind, hx, bind_map_left, map_bind]
  refine bind_congr fun a => ?_
  dsimp only
  rw [hf a, Functor.map_map]
  simp only [List.append_nil]

/-- `x` ends as `y` does, and what it logs before a result satisfies `post`. -/
def Logs (post : α → List σ → Prop) (x : WriterT (List σ) (Except ε) α) (y : Except ε α) : Prop :=
  match y with
  | .ok a => ∃ es, x.run = .ok (a, es) ∧ post a es
  | .error e => x.run = .error e

variable {post post' : α → List σ → Prop} {x : WriterT (List σ) (Except ε) α} {y : Except ε α}

theorem Logs.pure {a : α} (h : post a []) : Logs post (Pure.pure a : WriterT (List σ) (Except ε) α) (.ok a) :=
  ⟨[], rfl, h⟩

/-- A step that is no event. -/
theorem Logs.lift (h : ∀ a, y = .ok a → post a []) : Logs post (liftM y : WriterT (List σ) (Except ε) α) y := by
  cases y with
  | ok a => exact ⟨[], rfl, h a rfl⟩
  | error e => rfl

/-- **One after the other.** -/
theorem Logs.bind {f : α → WriterT (List σ) (Except ε) β} {g : α → Except ε β} {post' : β → List σ → Prop}
    (hx : Logs post x y) (hf : ∀ a es, y = .ok a → post a es → Logs (fun b es' => post' b (es ++ es')) (f a) (g a)) :
    Logs post' (x >>= f) (y >>= g) := by
  cases y with
  | error e =>
    show (x.run >>= _) = _
    rw [show x.run = .error e from hx]
    rfl
  | ok a =>
    obtain ⟨es, hrun, hpost⟩ := hx
    have hrest := hf a es rfl hpost
    show Logs post' (x >>= f) (g a)
    have hbind : (x >>= f).run = (fun r : β × List σ => (r.1, es ++ r.2)) <$> (f a).run := by
      show (x.run >>= _) = _
      rw [hrun]
      rfl
    cases hg : g a with
    | error e =>
      rw [hg] at hrest
      show (x >>= f).run = .error e
      rw [hbind, show (f a).run = .error e from hrest]
      rfl
    | ok b =>
      rw [hg] at hrest
      obtain ⟨es', hrun', hpost'⟩ := hrest
      refine ⟨es ++ es', ?_, hpost'⟩
      rw [hbind, hrun']
      rfl

/-- A step that is no event, and then the others. -/
theorem Logs.lift_bind {f : α → WriterT (List σ) (Except ε) β} {g : α → Except ε β} {post' : β → List σ → Prop}
    (hf : ∀ a, y = .ok a → Logs post' (f a) (g a)) : Logs post' (liftM y >>= f) (y >>= g) := by
  have hy : Logs (fun _ es => es = []) (liftM y : WriterT (List σ) (Except ε) α) y := Logs.lift fun _ _ => rfl
  refine hy.bind ?_
  rintro a es ha rfl
  exact hf a ha

/-- A step, and what is made of its result. -/
theorem Logs.map {f : α → β} {post' : β → List σ → Prop} (hx : Logs post x y) (hf : ∀ a es, post a es → post' (f a) es) :
    Logs post' (x >>= fun a => Pure.pure (f a)) (y >>= fun a => .ok (f a)) := by
  refine hx.bind fun a es _ ha => Logs.pure ?_
  rw [List.append_nil]
  exact hf a es ha

theorem Logs.mono (h : Logs post x y) (hp : ∀ a es, y = .ok a → post a es → post' a es) : Logs post' x y := by
  cases y with
  | ok a =>
    obtain ⟨es, hrun, hpost⟩ := h
    exact ⟨es, hrun, hp a es rfl hpost⟩
  | error e => exact h

/-- Whichever branch is taken. -/
theorem Logs.ite {p : Prop} [Decidable p] {x' : WriterT (List σ) (Except ε) α} {y' : Except ε α}
    (h : p → Logs post x y) (h' : ¬ p → Logs post x' y') : Logs post (if p then x else x') (if p then y else y') := by
  split_ifs with hp
  · exact h hp
  · exact h' hp

/-- **Without its log**, `x` is `y`. -/
theorem Logs.fst (h : Logs post x y) : Prod.fst <$> x.run = y := by
  cases y with
  | ok a =>
    obtain ⟨es, hrun, -⟩ := h
    rw [hrun]
    rfl
  | error e =>
    rw [show x.run = .error e from h]
    rfl

/-- How `x` ends, where it is known how `y` ends. -/
theorem Logs.ends {fails : ε → Prop} {known : α → Prop} (h : Logs post x y) (hy : Ends fails y known) :
    Ends fails x.run fun r => y = .ok r.1 ∧ known r.1 ∧ post r.1 r.2 := by
  cases y with
  | ok a =>
    obtain ⟨es, hrun, hpost⟩ := h
    rw [hrun]
    exact ⟨rfl, hy, hpost⟩
  | error e =>
    rw [show x.run = .error e from h]
    exact hy

end MatchingEngine.Foundation
