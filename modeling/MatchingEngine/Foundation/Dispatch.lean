import Mathlib.Algebra.BigOperators.Group.Finset.Basic
import Mathlib.Data.List.Basic
import Mathlib.Logic.Function.Basic
import Mathlib.Tactic.SplitIfs

/-!
# A router and its workers

One thread, the router, reads messages in order and hands each to a worker, through the bounded
queue of that worker; it waits while the queue is full, and says so when it is done. Each
worker takes messages from its queue and handles them one after the other. It leaves only when it
finds its queue empty after it has seen that the router is done. The scheduler picks who
makes the next step.

A worker handles its part of the messages, which the router's choices alone determine, in order:
`Inv` says so of every moment of every run, and `Inv.finished` is what it comes to when all
workers have left. That they can always leave is `Inv.can_finish`.
-/

namespace MatchingEngine.Foundation.Dispatch

variable {ι M R S : Type*}

/-! ### The threads -/

/-- What the threads compute. -/
structure Program (ι M R S : Type*) where
  /-- The worker of a message, and what the router remembers. -/
  route : R → M → ι × R
  /-- What a worker does with a message, unless it fails. -/
  handle : S → M → Option S
  /-- How many messages a queue holds. -/
  capacity : ℕ

/-- Where the router is. -/
inductive RouterPc (ι M : Type*) where
  /-- It reads the next message. -/
  | reading
  /-- It tries to push a message. -/
  | pushing (m : M) (k : ι)
  /-- It has said that it is done. -/
  | done

/-- Where a worker is. -/
inductive WorkerPc (M : Type*) where
  /-- It tries to pop a message. -/
  | polling
  /-- It handles a message. -/
  | handling (m : M)
  /-- It found its queue empty, and looks whether the router is done. -/
  | checking
  /-- It has seen that the router is done, and tries to pop once more. -/
  | draining
  /-- It has left. -/
  | left
  /-- It has failed to handle a message. -/
  | failed (m : M)

/-- The threads, and what they share. -/
structure State (ι M R S : Type*) where
  /-- The messages that the router has not read. -/
  unread : List M
  /-- What the router remembers. -/
  table : R
  /-- The router. -/
  router : RouterPc ι M
  /-- The queues. -/
  queue : ι → List M
  /-- The workers. -/
  worker : ι → WorkerPc M
  /-- What the workers have made of their messages. -/
  state : ι → S

/-- Who makes the next step. -/
inductive Turn (ι : Type*) where
  /-- The router. -/
  | router
  /-- A worker. -/
  | worker (k : ι)

/-- Before the first step. -/
def State.new (r : R) (x : ι → S) (ms : List M) : State ι M R S where
  unread := ms
  table := r
  router := .reading
  queue := fun _ => []
  worker := fun _ => .polling
  state := x

/-- The router is done. -/
def RouterPc.isDone : RouterPc ι M → Bool
  | .done => true
  | _ => false

/-- What the router remembers after messages. -/
def Program.tableAfter (P : Program ι M R S) (r : R) (ms : List M) : R := ms.foldl (fun r m => (P.route r m).2) r

@[simp] theorem Program.tableAfter_append (P : Program ι M R S) (r : R) (ms ms' : List M) :
    P.tableAfter r (ms ++ ms') = P.tableAfter (P.tableAfter r ms) ms' := List.foldl_append ..

variable [DecidableEq ι]

/-- A worker goes on elsewhere. -/
def State.goto (s : State ι M R S) (k : ι) (pc : WorkerPc M) : State ι M R S :=
  { s with worker := Function.update s.worker k pc }

/-- A worker pops a message, or goes on elsewhere if there is none. -/
def State.pop (s : State ι M R S) (k : ι) (empty : WorkerPc M) : State ι M R S :=
  match s.queue k with
  | [] => s.goto k empty
  | m :: q => { s with queue := Function.update s.queue k q }.goto k (.handling m)

namespace Program

variable (P : Program ι M R S)

/-- The router's next step. -/
def routerStep (s : State ι M R S) : State ι M R S :=
  match s.router with
  | .reading =>
    match s.unread with
    | [] => { s with router := .done }
    | m :: ms =>
      { s with unread := ms, table := (P.route s.table m).2, router := .pushing m (P.route s.table m).1 }
  | .pushing m k =>
    if (s.queue k).length < P.capacity then
      { s with queue := Function.update s.queue k (s.queue k ++ [m]), router := .reading }
    else s
  | .done => s

/-- A worker's next step. -/
def workerStep (s : State ι M R S) (k : ι) : State ι M R S :=
  match s.worker k with
  | .polling => s.pop k .checking
  | .handling m =>
    match P.handle (s.state k) m with
    | some x => { s with state := Function.update s.state k x }.goto k .polling
    | none => s.goto k (.failed m)
  | .checking => s.goto k (if s.router.isDone then .draining else .polling)
  | .draining => s.pop k .left
  | .left => s
  | .failed _ => s

/-- One step. -/
def step (s : State ι M R S) : Turn ι → State ι M R S
  | .router => P.routerStep s
  | .worker k => P.workerStep s k

/-- The steps of a schedule. -/
def run (s : State ι M R S) (turns : List (Turn ι)) : State ι M R S := turns.foldl P.step s

/-! ### What is whose -/

/-- The messages that a worker is given. -/
def part (k : ι) : R → List M → List M
  | _, [] => []
  | r, m :: ms => (if (P.route r m).1 = k then [m] else []) ++ part k (P.route r m).2 ms

theorem part_append (k : ι) (r : R) (ms ms' : List M) :
    P.part k r (ms ++ ms') = P.part k r ms ++ P.part k (P.tableAfter r ms) ms' := by
  induction ms generalizing r with
  | nil => rfl
  | cons m ms ih => simp [part, tableAfter, ih]

theorem part_snoc (k : ι) (r : R) (ms : List M) (m : M) :
    P.part k r (ms ++ [m]) =
      P.part k r ms ++ if (P.route (P.tableAfter r ms) m).1 = k then [m] else [] := by
  simp [part_append, part]

end Program

/-- The message that a worker has popped, and not handled. -/
def WorkerPc.held : WorkerPc M → List M
  | .handling m => [m]
  | .failed m => [m]
  | _ => []

@[simp] theorem WorkerPc.held_polling : (polling : WorkerPc M).held = [] := rfl

@[simp] theorem WorkerPc.held_handling (m : M) : (handling m).held = [m] := rfl

/-- The message that the router tries to push to a worker. -/
def RouterPc.offered (k : ι) : RouterPc ι M → List M
  | .pushing m k' => if k' = k then [m] else []
  | _ => []

/-- The messages for a worker that have been read, and that it has not handled. -/
def State.pending (s : State ι M R S) (k : ι) : List M := (s.worker k).held ++ s.queue k ++ s.router.offered k

/-- Where a worker is after one has gone on. -/
theorem State.worker_goto {s : State ι M R S} {k k' : ι} {pc pc' : WorkerPc M} (h : (s.goto k pc).worker k' = pc') :
    k' = k ∧ pc = pc' ∨ k' ≠ k ∧ s.worker k' = pc' := by
  by_cases hk : k' = k
  · subst hk
    exact Or.inl ⟨rfl, by simpa [State.goto] using h⟩
  · exact Or.inr ⟨hk, by simpa [State.goto, hk] using h⟩

/-! ### The invariant -/

variable {P : Program ι M R S} {r : R} {x : ι → S} {ms : List M} {s : State ι M R S} {k : ι}

/-- **What holds at every moment.** -/
structure Inv (P : Program ι M R S) (r : R) (x : ι → S) (ms : List M) (s : State ι M R S) : Prop where
  /-- Of the messages that have been read a worker has handled its part, but for what is pending. -/
  read : ∃ past, past ++ s.unread = ms ∧ s.table = P.tableAfter r past ∧ ∀ k, ∃ handled,
    handled.foldlM P.handle (x k) = some (s.state k) ∧ handled ++ s.pending k = P.part k r past
  /-- When the router is done there is nothing left to read. -/
  done : s.router.isDone → s.unread = []
  /-- A worker pops for the last time when the router is done. -/
  draining : ∀ k, s.worker k = .draining → s.router.isDone
  /-- A worker has left an empty queue that nothing is pushed to. -/
  left : ∀ k, s.worker k = .left → s.router.isDone ∧ s.queue k = []
  /-- Where a worker has failed there is no result. -/
  failed : ∀ k m, s.worker k = .failed m → P.handle (s.state k) m = none

theorem inv_new (P : Program ι M R S) (r : R) (x : ι → S) (ms : List M) : Inv P r x ms (.new r x ms) where
  read := ⟨[], rfl, rfl, fun k => ⟨[], rfl, rfl⟩⟩
  done h := by cases h
  draining k h := by cases h
  left k h := by cases h
  failed k m h := by cases h

/-- A worker goes on, and holds what it held. -/
theorem Inv.goto (h : Inv P r x ms s) {pc : WorkerPc M} (hheld : pc.held = (s.worker k).held)
    (hdraining : pc = .draining → s.router.isDone) (hleft : pc = .left → s.router.isDone ∧ s.queue k = [])
    (hfailed : ∀ m, pc = .failed m → P.handle (s.state k) m = none) : Inv P r x ms (s.goto k pc) := by
  have hpending : ∀ k', (s.goto k pc).pending k' = s.pending k' := by
    intro k'
    by_cases hk : k' = k
    · subst hk
      simp [State.pending, State.goto, hheld]
    · simp [State.pending, State.goto, hk]
  refine ⟨?_, h.done, fun k' hw => ?_, fun k' hw => ?_, fun k' m hw => ?_⟩
  · obtain ⟨past, hms, htable, hk⟩ := h.read
    refine ⟨past, hms, htable, fun k' => ?_⟩
    rw [hpending]
    exact hk k'
  · obtain ⟨-, hp⟩ | ⟨-, hw⟩ := State.worker_goto hw
    · exact hdraining hp
    · exact h.draining k' hw
  · obtain ⟨rfl, hp⟩ | ⟨-, hw⟩ := State.worker_goto hw
    · exact hleft hp
    · exact h.left k' hw
  · obtain ⟨rfl, hp⟩ | ⟨-, hw⟩ := State.worker_goto hw
    · exact hfailed m hp
    · exact h.failed k' m hw

/-- A worker pops a message. -/
theorem Inv.popped (h : Inv P r x ms s) {m : M} {q : List M} (hheld : (s.worker k).held = [])
    (hq : s.queue k = m :: q) :
    Inv P r x ms (({ s with queue := Function.update s.queue k q } : State ι M R S).goto k (.handling m)) := by
  refine ⟨?_, h.done, fun k' hw => ?_, fun k' hw => ?_, fun k' m' hw => ?_⟩
  · obtain ⟨past, hms, htable, hk⟩ := h.read
    refine ⟨past, hms, htable, fun k' => ?_⟩
    obtain ⟨handled, hrun, hpart⟩ := hk k'
    refine ⟨handled, hrun, ?_⟩
    rw [← hpart]
    by_cases hk' : k' = k
    · subst hk'
      simp [State.pending, State.goto, hheld, hq]
    · simp [State.pending, State.goto, hk']
  · obtain ⟨-, hp⟩ | ⟨-, hw⟩ := State.worker_goto hw
    · cases hp
    · exact h.draining k' hw
  · obtain ⟨-, hp⟩ | ⟨hk, hw⟩ := State.worker_goto hw
    · cases hp
    · obtain ⟨hdone, hempty⟩ := h.left k' hw
      exact ⟨hdone, by simpa [State.goto, hk] using hempty⟩
  · obtain ⟨-, hp⟩ | ⟨-, hw⟩ := State.worker_goto hw
    · cases hp
    · exact h.failed k' m' hw

/-- A worker has handled the message that it popped. -/
theorem Inv.handled (h : Inv P r x ms s) {m : M} {y : S} (hpc : s.worker k = .handling m)
    (hy : P.handle (s.state k) m = some y) :
    Inv P r x ms (({ s with state := Function.update s.state k y } : State ι M R S).goto k .polling) := by
  refine ⟨?_, h.done, fun k' hw => ?_, fun k' hw => ?_, fun k' m' hw => ?_⟩
  · obtain ⟨past, hms, htable, hk⟩ := h.read
    refine ⟨past, hms, htable, fun k' => ?_⟩
    obtain ⟨handled, hrun, hpart⟩ := hk k'
    by_cases hk' : k' = k
    · subst hk'
      refine ⟨handled ++ [m], ?_, ?_⟩
      · simp [List.foldlM_append, hrun, hy, State.goto]
      · rw [← hpart]
        simp [State.pending, State.goto, hpc]
    · refine ⟨handled, ?_, ?_⟩
      · simpa [State.goto, hk'] using hrun
      · rw [← hpart]
        simp [State.pending, State.goto, hk']
  · obtain ⟨-, hp⟩ | ⟨-, hw⟩ := State.worker_goto hw
    · cases hp
    · exact h.draining k' hw
  · obtain ⟨-, hp⟩ | ⟨-, hw⟩ := State.worker_goto hw
    · cases hp
    · exact h.left k' hw
  · obtain ⟨-, hp⟩ | ⟨hk, hw⟩ := State.worker_goto hw
    · cases hp
    · simpa [State.goto, hk] using h.failed k' m' hw

theorem Inv.pop (h : Inv P r x ms s) {empty : WorkerPc M} (hheld : (s.worker k).held = [])
    (hempty : s.queue k = [] → Inv P r x ms (s.goto k empty)) : Inv P r x ms (s.pop k empty) := by
  rw [State.pop]
  cases hq : s.queue k with
  | nil => exact hempty hq
  | cons m q => exact h.popped hheld hq

/-- **The workers' steps.** -/
theorem Inv.workerStep (h : Inv P r x ms s) (k : ι) : Inv P r x ms (P.workerStep s k) := by
  rw [Program.workerStep]
  cases hpc : s.worker k with
  | polling =>
    refine h.pop (by rw [hpc]; rfl) fun _ => h.goto (by rw [hpc]; rfl) ?_ ?_ ?_ <;> simp
  | handling m =>
    dsimp only
    cases hy : P.handle (s.state k) m with
    | some y => exact h.handled hpc hy
    | none =>
      refine h.goto (by rw [hpc]; rfl) ?_ ?_ fun m' hm => ?_
      · simp
      · simp
      · cases hm
        exact hy
  | checking =>
    refine h.goto ?_ (fun hd => ?_) (fun hl => ?_) fun m hf => ?_
    · rw [hpc]
      split_ifs <;> rfl
    · by_contra hn
      simp [hn] at hd
    · split_ifs at hl
    · split_ifs at hf
  | draining =>
    refine h.pop (by rw [hpc]; rfl) fun hq => h.goto (by rw [hpc]; rfl) ?_ (fun _ => ⟨h.draining k hpc, hq⟩) ?_ <;> simp
  | left => exact h
  | failed m => exact h

/-- **The router's steps.** -/
theorem Inv.routerStep (h : Inv P r x ms s) : Inv P r x ms (P.routerStep s) := by
  obtain ⟨past, hms, htable, hread⟩ := h.read
  rw [Program.routerStep]
  cases hpc : s.router with
  | reading =>
    dsimp only
    cases hunread : s.unread with
    | nil =>
      refine ⟨⟨past, ?_, htable, fun k => ?_⟩, fun _ => rfl, fun k hw => rfl, fun k hw => ⟨rfl, (h.left k hw).2⟩, h.failed⟩
      · rw [← hms, hunread]
      · have hk := hread k
        rw [State.pending, hpc] at hk
        exact hk
    | cons m rest =>
      have hnot : s.router.isDone = false := by rw [hpc]; rfl
      refine ⟨⟨past ++ [m], ?_, ?_, fun k => ?_⟩, fun hd => ?_, fun k hw => ?_, fun k hw => ?_, h.failed⟩
      · rw [← hms, hunread, List.append_assoc]
        rfl
      · simp [htable, Program.tableAfter]
      · obtain ⟨handled, hrun, hpart⟩ := hread k
        refine ⟨handled, hrun, ?_⟩
        rw [P.part_snoc, ← hpart, ← htable]
        simp [State.pending, RouterPc.offered, hpc]
      · cases hd
      · exact absurd (h.draining k hw) (by simp [hnot])
      · exact absurd (h.left k hw).1 (by simp [hnot])
  | pushing m k' =>
    dsimp only
    split_ifs with hroom
    · have hnot : s.router.isDone = false := by rw [hpc]; rfl
      refine ⟨⟨past, hms, htable, fun k => ?_⟩, fun hd => ?_, fun k hw => ?_, fun k hw => ?_, h.failed⟩
      · obtain ⟨handled, hrun, hpart⟩ := hread k
        refine ⟨handled, hrun, ?_⟩
        rw [← hpart]
        by_cases hk : k = k'
        · subst hk
          simp [State.pending, RouterPc.offered, hpc]
        · simp [State.pending, RouterPc.offered, hpc, hk, Ne.symm hk]
      · cases hd
      · exact absurd (h.draining k hw) (by simp [hnot])
      · exact absurd (h.left k hw).1 (by simp [hnot])
    · exact h
  | done => exact h

theorem Inv.step (h : Inv P r x ms s) (turn : Turn ι) : Inv P r x ms (P.step s turn) := by
  cases turn with
  | router => exact h.routerStep
  | worker k => exact h.workerStep k

/-- **The invariant holds at every moment of every run.** -/
theorem Inv.run (h : Inv P r x ms s) (turns : List (Turn ι)) : Inv P r x ms (P.run s turns) := by
  induction turns generalizing s with
  | nil => exact h
  | cons turn turns ih => exact ih (h.step turn)

/-! ### The end of a run -/

/-- A worker's part can be handled. -/
def Program.Handles (P : Program ι M R S) (r : R) (x : ι → S) (ms : List M) (k : ι) : Prop :=
  ((P.part k r ms).foldlM P.handle (x k)).isSome

/-- It can handle its part of the first messages. -/
theorem Program.Handles.of_append {ms' : List M} (h : P.Handles r x (ms ++ ms') k) : P.Handles r x ms k := by
  rw [Program.Handles, part_append, List.foldlM_append] at h
  exact Option.isSome_of_isSome_bind h

/-- A worker whose part can be handled does not fail. -/
theorem Inv.not_failed (h : Inv P r x ms s) (hk : P.Handles r x ms k) (m : M) : s.worker k ≠ .failed m := by
  intro hw
  obtain ⟨past, hms, -, hread⟩ := h.read
  obtain ⟨handled, hrun, hpart⟩ := hread k
  have hsplit : P.part k r ms = handled ++ m :: (s.queue k ++ s.router.offered k ++ P.part k (P.tableAfter r past) s.unread) := by
    rw [← hms, P.part_append, ← hpart, State.pending, hw]
    simp [WorkerPc.held]
  rw [Program.Handles, hsplit, List.foldlM_append, hrun] at hk
  simp [h.failed k m hw] at hk

/-- **When all workers have left** each has handled its part of the messages. -/
theorem Inv.finished [Nonempty ι] (h : Inv P r x ms s) (hleft : ∀ k, s.worker k = .left) (k : ι) :
    (P.part k r ms).foldlM P.handle (x k) = some (s.state k) := by
  obtain ⟨past, hms, -, hread⟩ := h.read
  obtain ⟨handled, hrun, hpart⟩ := hread k
  obtain ⟨hdone, hempty⟩ := h.left k (hleft k)
  have hoffered : s.router.offered k = [] := by
    cases hr : s.router with
    | pushing m k' =>
      rw [hr] at hdone
      cases hdone
    | _ => rfl
  rw [h.done hdone, List.append_nil] at hms
  rw [State.pending, hleft k, hempty, hoffered] at hpart
  rw [← hms, ← hpart]
  simpa [WorkerPc.held] using hrun

/-! ### Every run can be finished -/

/-- How far a worker is from leaving. -/
def WorkerPc.weight : WorkerPc M → ℕ
  | .polling => 3
  | .handling _ => 4
  | .checking => 2
  | .draining => 1
  | .left => 0
  | .failed _ => 0

/-- How far the router is from being done, but for what it has not read. -/
def RouterPc.weight : RouterPc ι M → ℕ
  | .reading => 1
  | .pushing _ _ => 7
  | .done => 0

variable [Fintype ι]

/-- How far the threads are from the end. A message weighs less with every step that it makes. -/
def State.weight (s : State ι M R S) : ℕ :=
  7 * s.unread.length + s.router.weight + ∑ k, (5 * (s.queue k).length + (s.worker k).weight)

/-- Two sums that differ in one place. -/
theorem sum_add_eq_sum_add {f g : ι → ℕ} (k : ι) (h : ∀ j ≠ k, f j = g j) : ∑ j, f j + g k = ∑ j, g j + f k := by
  have hrest : ∑ j ∈ Finset.univ.erase k, f j = ∑ j ∈ Finset.univ.erase k, g j :=
    Finset.sum_congr rfl fun j hj => h j (Finset.ne_of_mem_erase hj)
  rw [← Finset.sum_erase_add _ f (Finset.mem_univ k), ← Finset.sum_erase_add _ g (Finset.mem_univ k), hrest]
  omega

theorem State.weight_goto (s : State ι M R S) (k : ι) (pc : WorkerPc M) :
    (s.goto k pc).weight + (s.worker k).weight = s.weight + pc.weight := by
  have hsum := sum_add_eq_sum_add (f := fun j => 5 * (s.queue j).length + ((s.goto k pc).worker j).weight)
    (g := fun j => 5 * (s.queue j).length + (s.worker j).weight) k fun j hj => by simp [State.goto, hj]
  have hk : (s.goto k pc).worker k = pc := Function.update_self ..
  rw [hk] at hsum
  show 7 * s.unread.length + s.router.weight +
    ∑ j, (5 * (s.queue j).length + ((s.goto k pc).worker j).weight) + _ = _
  rw [State.weight]
  omega

theorem State.weight_queue (s : State ι M R S) (k : ι) (q : List M) :
    ({ s with queue := Function.update s.queue k q } : State ι M R S).weight + 5 * (s.queue k).length =
      s.weight + 5 * q.length := by
  have hsum := sum_add_eq_sum_add
    (f := fun j => 5 * (Function.update s.queue k q j).length + (s.worker j).weight)
    (g := fun j => 5 * (s.queue j).length + (s.worker j).weight) k fun j hj => by simp [hj]
  simp only [Function.update_self] at hsum
  simp only [State.weight]
  omega

/-- Popping a message makes the threads lighter, wherever the worker was. -/
theorem State.weight_pop {s : State ι M R S} {k : ι} (empty : WorkerPc M) (hq : s.queue k ≠ []) :
    (s.pop k empty).weight + (s.worker k).weight + 1 = s.weight := by
  obtain ⟨m, q, hq⟩ := List.exists_cons_of_ne_nil hq
  have hgoto := State.weight_goto { s with queue := Function.update s.queue k q } k (.handling m)
  have hqueue := s.weight_queue k q
  simp only [hq, List.length_cons] at hqueue
  simp only [State.pop, hq, WorkerPc.weight] at hgoto ⊢
  omega

/-- A worker's step makes the threads lighter, unless it is waiting for the router. -/
theorem Inv.weight_workerStep (h : Inv P r x ms s) (hk : P.Handles r x ms k) (hleft : s.worker k ≠ .left)
    (hwait : s.worker k = .checking → s.router.isDone) : (P.workerStep s k).weight < s.weight := by
  have hpop : ∀ {empty : WorkerPc M}, empty.weight < (s.worker k).weight → (s.pop k empty).weight < s.weight := by
    intro empty hw
    by_cases hq : s.queue k = []
    · have := s.weight_goto k empty
      simp only [State.pop, hq]
      omega
    · have := State.weight_pop empty hq
      omega
  have hgoto : ∀ {s' : State ι M R S} {pc : WorkerPc M}, s'.weight = s.weight → s'.worker k = s.worker k →
      pc.weight < (s.worker k).weight → (s'.goto k pc).weight < s.weight := by
    intro s' pc hs hpc hw
    have := s'.weight_goto k pc
    rw [hs, hpc] at this
    omega
  rw [Program.workerStep]
  cases hpc : s.worker k with
  | polling => exact hpop (by simp [hpc, WorkerPc.weight])
  | handling m =>
    dsimp only
    cases P.handle (s.state k) m with
    | some y => exact hgoto rfl rfl (by simp [hpc, WorkerPc.weight])
    | none => exact hgoto rfl rfl (by simp [hpc, WorkerPc.weight])
  | checking =>
    dsimp only
    rw [if_pos (hwait hpc)]
    exact hgoto rfl rfl (by simp [hpc, WorkerPc.weight])
  | draining => exact hpop (by simp [hpc, WorkerPc.weight])
  | left => exact absurd hpc hleft
  | failed m => exact absurd hpc (h.not_failed hk m)

/-- Some steps make the threads lighter, as long as a worker has not left. -/
theorem Inv.exists_lighter (h : Inv P r x ms s) (hcap : 0 < P.capacity) (hall : ∀ k, P.Handles r x ms k)
    (hleft : s.worker k ≠ .left) : ∃ turns, (P.run s turns).weight < s.weight := by
  cases hpc : s.router with
  | reading =>
    refine ⟨[.router], ?_⟩
    show (P.routerStep s).weight < _
    rw [Program.routerStep, hpc]
    cases hunread : s.unread with
    | nil => simp [State.weight, RouterPc.weight, hpc, hunread]
    | cons m rest =>
      simp only [State.weight, RouterPc.weight, hpc, hunread, List.length_cons]
      omega
  | pushing m k' =>
    by_cases hroom : (s.queue k').length < P.capacity
    · refine ⟨[.router], ?_⟩
      have := s.weight_queue k' (s.queue k' ++ [m])
      simp only [State.weight, RouterPc.weight, hpc, List.length_append, List.length_singleton] at this
      show (P.routerStep s).weight < _
      simp only [Program.routerStep, hpc, if_pos hroom, State.weight, RouterPc.weight]
      omega
    · -- the queue is full, and its worker can take a message out of it
      have hdone : s.router.isDone = false := by rw [hpc]; rfl
      have hfull : s.queue k' ≠ [] := by
        intro hq
        rw [hq] at hroom
        exact hroom hcap
      have hstays : s.worker k' ≠ .left := fun hl => absurd (h.left k' hl).1 (by simp [hdone])
      by_cases hcheck : s.worker k' = .checking
      · refine ⟨[.worker k', .worker k'], ?_⟩
        show (P.workerStep (P.workerStep s k') k').weight < _
        have hback : P.workerStep s k' = s.goto k' .polling := by
          simp [Program.workerStep, hcheck, hdone]
        have hpoll : (s.goto k' .polling).worker k' = .polling := Function.update_self ..
        have hgoto := s.weight_goto k' .polling
        have hpop : (P.workerStep (s.goto k' .polling) k').weight + 4 = (s.goto k' .polling).weight := by
          rw [Program.workerStep, hpoll]
          have := State.weight_pop (s := s.goto k' .polling) .checking hfull
          rw [hpoll] at this
          exact this
        rw [hback]
        rw [hcheck] at hgoto
        simp only [WorkerPc.weight] at hgoto
        omega
      · exact ⟨[.worker k'], h.weight_workerStep (hall k') hstays fun hc => absurd hc hcheck⟩
  | done => exact ⟨[.worker k], h.weight_workerStep (hall k) hleft fun _ => by rw [hpc]; rfl⟩

/-- **Every run can be finished**, if the workers can handle their parts and the queues hold anything at all. -/
theorem Inv.can_finish (h : Inv P r x ms s) (hcap : 0 < P.capacity) (hall : ∀ k, P.Handles r x ms k) :
    ∃ turns, ∀ k, (P.run s turns).worker k = .left := by
  induction hw : s.weight using Nat.strong_induction_on generalizing s with
  | _ w ih =>
    by_cases hleft : ∀ k, s.worker k = .left
    · exact ⟨[], hleft⟩
    · obtain ⟨k, hk⟩ := not_forall.mp hleft
      obtain ⟨turns, hlt⟩ := h.exists_lighter hcap hall hk
      obtain ⟨turns', hend⟩ := ih _ (hw ▸ hlt) (h.run turns) rfl
      refine ⟨turns ++ turns', ?_⟩
      rw [Program.run, List.foldl_append]
      exact hend

end MatchingEngine.Foundation.Dispatch
