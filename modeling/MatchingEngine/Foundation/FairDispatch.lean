import MatchingEngine.Foundation.Dispatch
import MatchingEngine.Foundation.FairRuns
import Mathlib.Data.Prod.Lex

/-!
# A router and its workers, under a fair schedule

A worker whose queue is empty goes round in a loop until the router is done, and a router whose
queue is full waits for the worker. So some turns change nothing that matters, and a run need not
end. It does if everyone has turns again and again: there is always somebody whose turn brings the
threads closer to the end, and no turn of another one takes them away from it (`helpful`).

What counts is first the steps that the messages have still to make, and then how far the workers
are from leaving. A worker that waits for the router counts the same wherever it is in its loop.
-/

namespace MatchingEngine.Foundation.Dispatch

variable {ι M R S : Type*} {P : Program ι M R S} {r : R} {x : ι → S} {ms : List M} {s s' : State ι M R S} {k : ι}

/-! ### What is left to do -/

/-- The steps that the router has still to make, but for what it has not read. -/
def RouterPc.work : RouterPc ι M → ℕ
  | .reading => 1
  | .pushing _ _ => 4
  | .done => 0

/-- The steps that the messages of a worker have still to make. -/
def State.load (s : State ι M R S) (k : ι) : ℕ := 2 * (s.queue k).length + (s.worker k).held.length

/-- How far a worker is from leaving, or from its queue if there is something in it. -/
def State.phase (s : State ι M R S) (k : ι) : ℕ :=
  match s.worker k with
  | .polling => if s.router.isDone then 3 else 0
  | .checking => if s.router.isDone then 2 else if (s.queue k).isEmpty then 0 else 1
  | .draining => 1
  | _ => 0

/-! ### What a worker's step leaves alone -/

/-- Only a worker and its queue have changed. -/
structure Local (k : ι) (s s' : State ι M R S) : Prop where
  /-- What the router has not read. -/
  unread : s'.unread = s.unread
  /-- The router. -/
  router : s'.router = s.router
  /-- The other queues. -/
  queue : ∀ j ≠ k, s'.queue j = s.queue j
  /-- The other workers. -/
  worker : ∀ j ≠ k, s'.worker j = s.worker j

theorem Local.load_of_ne (h : Local k s s') : ∀ j ≠ k, s'.load j = s.load j := fun j hj => by
  rw [State.load, State.load, h.queue j hj, h.worker j hj]

theorem Local.phase_of_ne (h : Local k s s') : ∀ j ≠ k, s'.phase j = s.phase j := fun j hj => by
  rw [State.phase, State.phase, h.worker j hj, h.router, h.queue j hj]

section

variable [DecidableEq ι]

theorem local_goto (s : State ι M R S) (k : ι) (pc : WorkerPc M) : Local k s (s.goto k pc) :=
  ⟨rfl, rfl, fun _ _ => rfl, fun _ hj => Function.update_of_ne hj ..⟩

theorem local_pop (s : State ι M R S) (k : ι) (empty : WorkerPc M) : Local k s (s.pop k empty) := by
  rw [State.pop]
  split
  · exact local_goto s k empty
  · exact ⟨rfl, rfl, fun _ hj => Function.update_of_ne hj .., fun _ hj => Function.update_of_ne hj ..⟩

end

variable [Fintype ι]

/-! ### How far it is -/

/-- How far the threads are from the end. -/
def State.rank (s : State ι M R S) : ℕ ×ₗ ℕ :=
  toLex (4 * s.unread.length + s.router.work + ∑ k, s.load k, ∑ k, s.phase k)

open Classical in
/-- Whose turn brings the threads closer to the end. -/
noncomputable def Program.helper (P : Program ι M R S) (s : State ι M R S) : Turn ι :=
  match s.router with
  | .reading => .router
  | .pushing _ k => if (s.queue k).length < P.capacity then .router else .worker k
  | .done => if h : ∃ k, s.worker k ≠ .left then .worker h.choose else .router

/-- Nothing happens that matters: a worker waits for the router, or it has left. -/
structure Idles (s s' : State ι M R S) : Prop where
  /-- The threads are as far from the end. -/
  rank : s'.rank = s.rank
  /-- The router is where it was, -/
  router : s'.router = s.router
  /-- and the queues are as they were. -/
  queue : s'.queue = s.queue
  /-- When the router is done nothing waits for it. -/
  done : s.router.isDone → s' = s

theorem Idles.refl (s : State ι M R S) : Idles s s := ⟨rfl, rfl, rfl, fun _ => rfl⟩

/-- The one who can help is the same. -/
theorem Idles.helper (h : Idles s s') : P.helper s' = P.helper s := by
  cases hdone : s.router.isDone with
  | true => rw [h.done hdone]
  | false =>
    rw [Program.helper, Program.helper, h.router, h.queue]
    cases hr : s.router with
    | done =>
      rw [hr] at hdone
      cases hdone
    | _ => rfl

variable [DecidableEq ι]

/-! ### A worker's step -/

/-- The threads are closer to the end if the worker is. -/
theorem Local.rank_lt (h : Local k s s') (hk : s'.load k < s.load k ∨ s'.load k = s.load k ∧ s'.phase k < s.phase k) :
    s'.rank < s.rank := by
  have hload := sum_add_eq_sum_add k h.load_of_ne
  have hphase := sum_add_eq_sum_add k h.phase_of_ne
  rw [State.rank, State.rank, h.unread, h.router]
  refine Prod.Lex.toLex_lt_toLex.mpr ?_
  rcases hk with hk | ⟨hk, hk'⟩
  · exact .inl (by dsimp only; omega)
  · exact .inr ⟨by dsimp only; omega, by dsimp only; omega⟩

theorem Local.rank_eq (h : Local k s s') (hload : s'.load k = s.load k) (hphase : s'.phase k = s.phase k) :
    s'.rank = s.rank := by
  have hall : ∀ {f g : ι → ℕ}, (∀ j ≠ k, f j = g j) → f k = g k → f = g := fun hne hk => funext fun j => by
    by_cases hj : j = k
    · rw [hj, hk]
    · exact hne j hj
  rw [State.rank, State.rank, h.unread, h.router]
  rw [show s'.load = s.load from hall h.load_of_ne hload, show s'.phase = s.phase from hall h.phase_of_ne hphase]

/-- A worker that goes on, with its queue as it was. -/
theorem rank_goto (s : State ι M R S) (k : ι) (pc : WorkerPc M) (hheld : pc.held = (s.worker k).held)
    (hphase : (s.goto k pc).phase k < s.phase k) : (s.goto k pc).rank < s.rank := by
  refine (local_goto s k pc).rank_lt (.inr ⟨?_, hphase⟩)
  rw [State.load, State.load, ← hheld, show (s.goto k pc).worker k = pc from Function.update_self ..]
  rfl

/-- A worker that pops a message. -/
theorem rank_pop (empty : WorkerPc M) (hheld : (s.worker k).held = []) (hq : s.queue k ≠ []) :
    (s.pop k empty).rank < s.rank := by
  refine (local_pop s k empty).rank_lt (.inl ?_)
  obtain ⟨m, q, hq⟩ := List.exists_cons_of_ne_nil hq
  simp only [State.pop, State.load, State.goto, hq, hheld, Function.update_self, WorkerPc.held_handling,
    List.length_cons, List.length_nil]
  omega

/-- A worker goes round in its loop. -/
theorem idles_goto {pc : WorkerPc M} (hdone : s.router.isDone = false) (hheld : pc.held = (s.worker k).held)
    (hphase : (s.goto k pc).phase k = s.phase k) : Idles s (s.goto k pc) := by
  refine ⟨(local_goto s k pc).rank_eq ?_ hphase, rfl, rfl, fun h => ?_⟩
  · rw [State.load, State.load, ← hheld, show (s.goto k pc).worker k = pc from Function.update_self ..]
    rfl
  · rw [hdone] at h
    cases h

/-- **A worker's step** brings the threads closer to the end, or nothing happens that matters; and it does not wait
when there is something in its queue, or when the router is done. -/
theorem Inv.worker_moves (h : Inv P r x ms s) (hk : P.Handles r x ms k) :
    (P.workerStep s k).rank < s.rank ∨
      Idles s (P.workerStep s k) ∧ (s.worker k = .left ∨ s.queue k = [] ∧ s.router.isDone = false) := by
  rw [Program.workerStep]
  cases hpc : s.worker k with
  | polling =>
    have hheld : (s.worker k).held = [] := by rw [hpc]; rfl
    by_cases hq : s.queue k = []
    · have hpop : s.pop k .checking = s.goto k .checking := by simp only [State.pop, hq]
      have hto : (s.goto k .checking).worker k = .checking := Function.update_self ..
      have hqueue : (s.goto k .checking).queue k = [] := hq
      have hrouter : (s.goto k .checking).router = s.router := rfl
      rw [hpop]
      cases hdone : s.router.isDone with
      | true => exact .inl (rank_goto s k _ hheld.symm (by simp [State.phase, hpc, hto, hrouter, hdone]))
      | false =>
        exact .inr ⟨idles_goto hdone hheld.symm (by simp [State.phase, hpc, hto, hrouter, hqueue, hdone]), .inr ⟨hq, rfl⟩⟩
    · exact .inl (rank_pop _ hheld hq)
  | handling m =>
    dsimp only
    cases hy : P.handle (s.state k) m with
    | some y =>
      refine .inl (Local.rank_lt (k := k) ⟨rfl, rfl, fun _ _ => rfl, fun _ hj => Function.update_of_ne hj ..⟩ (.inl ?_))
      simp [State.load, State.goto, hpc]
    | none =>
      refine .inl ?_
      have hfails : (P.workerStep s k).worker k = .failed m := by
        simp [Program.workerStep, hpc, hy, State.goto]
      exact absurd hfails ((h.workerStep k).not_failed hk m)
  | checking =>
    have hheld : (s.worker k).held = [] := by rw [hpc]; rfl
    cases hdone : s.router.isDone with
    | true =>
      have hto : (s.goto k .draining).worker k = .draining := Function.update_self ..
      refine .inl (rank_goto s k _ (by rw [hheld]; rfl) ?_)
      simp [State.phase, hpc, hdone, hto]
    | false =>
      have hto : (s.goto k .polling).worker k = .polling := Function.update_self ..
      have hrouter : (s.goto k .polling).router = s.router := rfl
      by_cases hq : s.queue k = []
      · refine .inr ⟨idles_goto hdone (by rw [hheld]; rfl) ?_, .inr ⟨hq, rfl⟩⟩
        simp [State.phase, hpc, hdone, hto, hrouter, hq]
      · refine .inl (rank_goto s k _ (by rw [hheld]; rfl) ?_)
        simp [State.phase, hpc, hdone, hto, hrouter, hq]
  | draining =>
    have hheld : (s.worker k).held = [] := by rw [hpc]; rfl
    by_cases hq : s.queue k = []
    · have hpop : s.pop k .left = s.goto k .left := by simp only [State.pop, hq]
      have hto : (s.goto k .left).worker k = .left := Function.update_self ..
      rw [hpop]
      exact .inl (rank_goto s k _ hheld.symm (by simp [State.phase, hpc, hto]))
    · exact .inl (rank_pop _ hheld hq)
  | left => exact .inr ⟨.refl s, .inl rfl⟩
  | failed m => exact absurd hpc (h.not_failed hk m)

/-! ### The router's step -/

/-- **The router's step** brings the threads closer to the end, unless the queue is full or it is done. -/
theorem router_moves (P : Program ι M R S) (s : State ι M R S) :
    (P.routerStep s).rank < s.rank ∨
      P.routerStep s = s ∧ (s.router = .done ∨ ∃ m k, s.router = .pushing m k ∧ ¬ (s.queue k).length < P.capacity) := by
  rw [Program.routerStep]
  cases hpc : s.router with
  | reading =>
    dsimp only
    cases hunread : s.unread with
    | nil =>
      refine .inl (Prod.Lex.toLex_lt_toLex.mpr (.inl ?_))
      show 4 * 0 + 0 + ∑ k, s.load k < 4 * s.unread.length + s.router.work + ∑ k, s.load k
      rw [hpc, RouterPc.work]
      omega
    | cons m rest =>
      refine .inl (Prod.Lex.toLex_lt_toLex.mpr (.inl ?_))
      show 4 * rest.length + 4 + ∑ k, s.load k < 4 * s.unread.length + s.router.work + ∑ k, s.load k
      rw [hpc, hunread, RouterPc.work, List.length_cons]
      omega
  | pushing m k =>
    dsimp only
    split_ifs with hroom
    · refine .inl (Prod.Lex.toLex_lt_toLex.mpr (.inl ?_))
      have hload := sum_add_eq_sum_add (g := s.load) (f := State.load
        { s with queue := Function.update s.queue k (s.queue k ++ [m]), router := .reading }) k fun j hj => by
          simp [State.load, hj]
      simp only [State.load, Function.update_self, List.length_append, List.length_singleton] at hload ⊢
      rw [hpc]
      simp only [RouterPc.work]
      omega
    · exact .inr ⟨rfl, .inr ⟨m, k, rfl, hroom⟩⟩
  | done => exact .inr ⟨rfl, .inl rfl⟩

/-! ### Fair schedules -/

/-- **Somebody can always help** until all workers have left, if the workers can handle their parts and the queues hold
anything at all. -/
theorem helpful (hcap : 0 < P.capacity) (hall : ∀ k, P.Handles r x ms k) :
    Helpful P.step (Inv P r x ms) (fun s => ∀ k, s.worker k = .left) State.rank P.helper where
  keeps s turn h := h.step turn
  helps s h hgoal := by
    have hrouter : P.helper s = .router → s.router ≠ .done →
        (∀ m k, s.router = .pushing m k → (s.queue k).length < P.capacity) → (P.step s (P.helper s)).rank < s.rank := by
      intro hhelper hdone hroom
      rw [hhelper]
      obtain hlower | ⟨-, hd | ⟨m, k, hp, hfull⟩⟩ := router_moves P s
      · exact hlower
      · exact absurd hd hdone
      · exact absurd (hroom m k hp) hfull
    cases hr : s.router with
    | reading => exact hrouter (by rw [Program.helper, hr]) (by simp [hr]) fun m k hp => by simp [hr] at hp
    | pushing m k =>
      by_cases hroom : (s.queue k).length < P.capacity
      · refine hrouter (by simp only [Program.helper, hr, if_pos hroom]) (by simp [hr]) fun m' k' hp => ?_
        rw [hr] at hp
        cases hp
        exact hroom
      · -- the queue is full, and its worker has not left
        have hhelper : P.helper s = .worker k := by simp only [Program.helper, hr, if_neg hroom]
        rw [hhelper]
        obtain hlower | ⟨-, hleft | ⟨hq, -⟩⟩ := h.worker_moves (hall k)
        · exact hlower
        · have hd := (h.left k hleft).1
          rw [hr] at hd
          cases hd
        · rw [hq] at hroom
          exact absurd hcap hroom
    | done =>
      have hsome : ∃ k, s.worker k ≠ .left := not_forall.mp hgoal
      have hhelper : P.helper s = .worker hsome.choose := by simp only [Program.helper, hr, dif_pos hsome]
      rw [hhelper]
      obtain hlower | ⟨-, hleft | ⟨-, hd⟩⟩ := h.worker_moves (hall hsome.choose)
      · exact hlower
      · exact absurd hleft hsome.choose_spec
      · rw [hr] at hd
        cases hd
  waits s turn h hgoal := by
    cases turn with
    | router =>
      obtain hlower | ⟨hsame, -⟩ := router_moves P s
      · exact .inl hlower
      · exact .inr (by rw [Program.step, hsame]; exact ⟨rfl, rfl⟩)
    | worker k =>
      obtain hlower | ⟨hidles, -⟩ := h.worker_moves (hall k)
      · exact .inl hlower
      · exact .inr ⟨hidles.rank, hidles.helper⟩

/-- **Under a fair schedule all workers leave.** -/
theorem fair_finishes (hcap : 0 < P.capacity) (hall : ∀ k, P.Handles r x ms k) {turns : ℕ → Turn ι}
    (hfair : FairSchedule turns) : ∃ t, ∀ k, (statesOf P.step (.new r x ms) turns t).worker k = .left :=
  (helpful hcap hall).reaches (inv_new P r x ms) hfair

end MatchingEngine.Foundation.Dispatch
