import MatchingEngine.Core.RingLoops
import Mathlib.Data.Prod.Lex

/-!
# Three threads and two rings

ADR-1: a producer writes to a ring, one thread reads from it, handles each value and writes what
comes of it to a second ring, and a consumer reads from that. What the thread in the middle does
with a value is a parameter here; it may also fail, and then nothing more comes from it.

`Inv` is what holds at every moment, for every schedule: what has been pushed is a first part of what
one loop over all the values gives, in order (`Inv.written_of_run`), and the consumer has got all of
it when it leaves (`Inv.finished`). `helpful` says whose turn it is to bring the three closer to the
end, so that under a fair schedule the consumer leaves.
-/

namespace MatchingEngine.Pipeline

open Foundation Channel

variable {A B S : Type}

/-! ### The threads -/

/-- Where the thread in the middle is. -/
inductive WorkerPc (A : Type) where
  /-- In its loop around `pop`. -/
  | reading
  /-- It handles a value. -/
  | handling (a : A)
  /-- In its loop around `push`. -/
  | writing
  /-- It has failed to handle a value. -/
  | failed (a : A)

/-- The threads, and what they share. -/
structure State (A B S : Type) where
  /-- `in_ring`, and `producer_done`. -/
  input : Channel A
  /-- `out_ring`, and `matcher_done`. -/
  output : Channel B
  /-- The thread in the middle. -/
  worker : WorkerPc A
  /-- What it has made of the values. -/
  state : S

/-- The three. -/
inductive Thread where
  /-- The producer. -/
  | producer
  /-- The thread in the middle. -/
  | worker
  /-- The consumer. -/
  | consumer
  deriving DecidableEq

/-- Before the first step. -/
def State.new [Inhabited A] [Inhabited B] (inCapacity outCapacity : ℕ) (x : S) (as : List A) : State A B S where
  input := .new inCapacity as
  output := .new outCapacity []
  worker := .reading
  state := x

/-- A step of the producer: it pushes all values, and sets its flag. -/
def producerStep (s : State A B S) : State A B S :=
  if s.input.todo.isEmpty then { s with input := s.input.finish } else { s with input := s.input.writerStep }

/-- A step of the consumer. -/
def consumerStep (s : State A B S) : State A B S := { s with output := s.output.readerStep.1 }

/-- The thread in the middle after a step in its loop around `pop`. -/
def State.read (s : State A B S) : Channel A × Option A → State A B S
  | (input, some a) => { s with input := input, worker := .handling a }
  | (input, none) => { s with input := input }

section Threads

variable (handle : S → A → Option (S × List B))

/-- A step of the thread in the middle: when it has left its loop around `pop` it sets its flag. -/
def workerStep (s : State A B S) : State A B S :=
  match s.worker with
  | .reading => if s.input.reader = .left then { s with output := s.output.finish } else s.read s.input.readerStep
  | .handling a =>
    match handle s.state a with
    | some (x, bs) => { s with output := s.output.offer bs, worker := .writing, state := x }
    | none => { s with worker := .failed a }
  | .writing => if s.output.todo.isEmpty then { s with worker := .reading } else { s with output := s.output.writerStep }
  | .failed _ => s

/-- One step. -/
def step (s : State A B S) : Thread → State A B S
  | .producer => producerStep s
  | .worker => workerStep handle s
  | .consumer => consumerStep s

/-- One loop over all values, with all that comes of them. -/
def runAll (handle : S → A → Option (S × List B)) : S → List A → Option (S × List B)
  | x, [] => some (x, [])
  | x, a :: as => do
    let (y, bs) ← handle x a
    let (z, cs) ← runAll handle y as
    some (z, bs ++ cs)

end Threads

/-! ### What holds at every moment -/

variable {handle : S → A → Option (S × List B)} {x y : S} {as : List A} {bs : List B} {k k' : ℕ} {s : State A B S}

theorem runAll_append {as' : List A} (h : runAll handle x (as ++ as') = some (y, bs)) :
    ∃ z cs cs', runAll handle x as = some (z, cs) ∧ runAll handle z as' = some (y, cs') ∧ bs = cs ++ cs' := by
  induction as generalizing x bs with
  | nil => exact ⟨x, [], bs, rfl, h, rfl⟩
  | cons a as ih =>
    obtain ⟨⟨z, cs⟩, hz, h⟩ := Option.bind_eq_some_iff.mp h
    obtain ⟨⟨y', ds⟩, hrest, h⟩ := Option.bind_eq_some_iff.mp h
    obtain ⟨rfl, rfl⟩ := Prod.mk.inj (Option.some.inj h)
    obtain ⟨w, es, es', hes, hes', rfl⟩ := ih hrest
    refine ⟨w, cs ++ es, es', ?_, hes', (List.append_assoc ..).symm⟩
    simp [runAll, hz, hes]

theorem runAll_concat {a : A} {z : S} {cs : List B} (h : runAll handle x as = some (y, bs)) (ha : handle y a = some (z, cs)) :
    runAll handle x (as ++ [a]) = some (z, bs ++ cs) := by
  induction as generalizing x bs with
  | nil =>
    obtain ⟨rfl, rfl⟩ := Prod.mk.inj (Option.some.inj h)
    simp [runAll, ha]
  | cons b as ih =>
    obtain ⟨⟨w, ds⟩, hw, h⟩ := Option.bind_eq_some_iff.mp h
    obtain ⟨⟨y', es⟩, hrest, h⟩ := Option.bind_eq_some_iff.mp h
    obtain ⟨rfl, rfl⟩ := Prod.mk.inj (Option.some.inj h)
    simp [runAll, hw, ih hrest]

/-- The value that has been popped, and not handled. -/
def WorkerPc.held : WorkerPc A → List A
  | .handling a => [a]
  | .failed a => [a]
  | _ => []

/-- **What holds at every moment.** -/
structure Inv (handle : S → A → Option (S × List B)) (k k' : ℕ) (x : S) (as : List A) (s : State A B S) : Prop where
  /-- The first ring. -/
  input : s.input.Ok k
  /-- The second ring. -/
  output : s.output.Ok k'
  /-- The producer pushes all values. -/
  all : s.input.sent ++ s.input.todo = as
  /-- What has been handled is what has been popped; what comes of it has been pushed, or is being pushed. -/
  handled : ∃ past, past ++ s.worker.held = s.input.got ∧
    runAll handle x past = some (s.state, s.output.sent ++ s.output.todo)
  /-- There is something to push only in the loop around `push`. -/
  writing : s.output.todo ≠ [] → s.worker = .writing
  /-- Outside the loop around `pop` the loop is where it was. -/
  between : s.input.reader = .left → s.worker = .reading
  /-- The flag is set when that loop has been left. -/
  flag : s.output.done = true → s.input.reader = .left
  /-- Where the thread has failed there is no result. -/
  failed : ∀ a, s.worker = .failed a → handle s.state a = none

theorem inv_new [Inhabited A] [Inhabited B] (handle : S → A → Option (S × List B)) (k k' : ℕ) (x : S) (as : List A) :
    Inv handle k k' x as (.new (2 ^ k) (2 ^ k') x as) where
  input := ok_new k as
  output := ok_new k' []
  all := rfl
  handled := ⟨[], rfl, rfl⟩
  writing h := absurd rfl h
  between h := by cases h
  flag h := by cases h
  failed _ h := by cases h

theorem Inv.producerStep (h : Inv handle k k' x as s) : Inv handle k k' x as (producerStep s) := by
  rw [Pipeline.producerStep]
  split_ifs with htodo
  · exact { h with input := h.input.finish (List.isEmpty_iff.mp htodo) }
  · obtain ⟨hok, hwrites, -⟩ := h.input.writerStep
    have hgot : s.input.writerStep.got = s.input.got := congrArg (List.map _) hwrites.pops
    refine { h with input := hok, all := hwrites.moved.trans h.all, handled := ?_, between := ?_, flag := ?_ }
    · show ∃ past, past ++ s.worker.held = s.input.writerStep.got ∧ _
      rw [hgot]
      exact h.handled
    · show s.input.writerStep.reader = .left → _
      rw [hwrites.reader]
      exact h.between
    · show _ → s.input.writerStep.reader = .left
      rw [hwrites.reader]
      exact h.flag

theorem Inv.consumerStep (h : Inv handle k k' x as s) : Inv handle k k' x as (consumerStep s) := by
  obtain ⟨hok, hreads, -⟩ := h.output.readerStep
  have hsent : s.output.readerStep.1.sent = s.output.sent := congrArg (List.map _) hreads.pushes
  refine { h with output := hok, handled := ?_, writing := ?_, flag := ?_ }
  · show ∃ past, _ ∧ runAll handle x past = some (s.state, s.output.readerStep.1.sent ++ s.output.readerStep.1.todo)
    rw [hsent, hreads.todo]
    exact h.handled
  · show s.output.readerStep.1.todo ≠ [] → _
    rw [hreads.todo]
    exact h.writing
  · show s.output.readerStep.1.done = true → _
    rw [hreads.done]
    exact h.flag

/-- Nothing is to be pushed outside the loop around `push`. -/
theorem Inv.todo_eq_nil (h : Inv handle k k' x as s) (hworker : s.worker ≠ .writing) : s.output.todo = [] := by
  by_contra hne
  exact hworker (h.writing hne)

/-- The flag is not set outside the loop around `pop`. -/
theorem Inv.done_eq_false (h : Inv handle k k' x as s) (hworker : s.worker ≠ .reading) : s.output.done = false := by
  by_contra hd
  exact hworker (h.between (h.flag (by simpa using hd)))

theorem Inv.read (h : Inv handle k k' x as s) (hworker : s.worker = .reading) (hleft : s.input.reader ≠ .left) :
    Inv handle k k' x as (s.read s.input.readerStep) := by
  obtain ⟨past, hpast, hrun⟩ := h.handled
  obtain ⟨hok, hreads, -⟩ := h.input.readerStep
  have hsent : s.input.readerStep.1.sent = s.input.sent := congrArg (List.map _) hreads.pushes
  have hall : s.input.readerStep.1.sent ++ s.input.readerStep.1.todo = as := by
    rw [hsent, hreads.todo]
    exact h.all
  have hflag : s.output.done ≠ true := fun hd => hleft (h.flag hd)
  have hgot := hreads.got
  have hreader := fun hne => (hreads.popped hne).1
  rw [hworker] at hpast
  have hpast : past = s.input.got := (List.append_nil past).symm.trans hpast
  generalize s.input.readerStep = r at hok hall hgot hreader
  obtain ⟨input, out⟩ := r
  cases out with
  | none =>
    refine { h with input := hok, all := hall, handled := ⟨past, ?_, hrun⟩, between := fun _ => hworker,
                    flag := fun hd => absurd hd hflag }
    show past ++ s.worker.held = input.got
    rw [hworker, hgot, hpast]
    rfl
  | some a =>
    refine ⟨hok, h.output, hall, ⟨past, ?_, hrun⟩, fun hne => ?_, fun hl => ?_, fun hd => absurd hd hflag, fun _ hf => ?_⟩
    · rw [State.read, hgot, hpast]
      rfl
    · exact absurd (h.todo_eq_nil (by simp [hworker])) hne
    · exact absurd ((hreader (by simp)).symm.trans hl) hleft
    · cases hf

/-- A value has been handled. -/
theorem Inv.handles (h : Inv handle k k' x as s) {a : A} (hworker : s.worker = .handling a) {z : S} {cs : List B}
    (ha : handle s.state a = some (z, cs)) :
    Inv handle k k' x as { s with output := s.output.offer cs, worker := .writing, state := z } := by
  obtain ⟨past, hpast, hrun⟩ := h.handled
  have htodo := h.todo_eq_nil (by simp [hworker])
  have hdone := h.done_eq_false (by simp [hworker])
  rw [hworker] at hpast
  rw [htodo, List.append_nil] at hrun
  refine ⟨h.input, h.output.offer htodo hdone cs, h.all, ⟨past ++ [a], ?_, runAll_concat hrun ha⟩, fun _ => rfl,
    fun hl => ?_, fun hd => absurd (hdone.symm.trans hd) (by decide), fun _ hf => ?_⟩
  · rw [← hpast]
    exact List.append_nil _
  · exact absurd (hworker.symm.trans (h.between hl)) (by simp)
  · cases hf

/-- It could not be handled. -/
theorem Inv.fails (h : Inv handle k k' x as s) {a : A} (hworker : s.worker = .handling a) (ha : handle s.state a = none) :
    Inv handle k k' x as { s with worker := .failed a } := by
  obtain ⟨past, hpast, hrun⟩ := h.handled
  rw [hworker] at hpast
  refine ⟨h.input, h.output, h.all, ⟨past, hpast, hrun⟩, fun hne => ?_, fun hl => ?_, h.flag, fun b hb => ?_⟩
  · exact absurd (h.todo_eq_nil (by simp [hworker])) hne
  · exact absurd (hworker.symm.trans (h.between hl)) (by simp)
  · rw [← WorkerPc.failed.inj hb]
    exact ha

theorem Inv.writes (h : Inv handle k k' x as s) (hworker : s.worker = .writing) :
    Inv handle k k' x as { s with output := s.output.writerStep } := by
  obtain ⟨hok, hwrites, -⟩ := h.output.writerStep
  refine { h with output := hok, handled := ?_, writing := fun _ => hworker, flag := ?_ }
  · show ∃ past, _ ∧ runAll handle x past = some (s.state, s.output.writerStep.sent ++ s.output.writerStep.todo)
    rw [hwrites.moved]
    exact h.handled
  · show s.output.writerStep.done = true → _
    rw [hwrites.done]
    exact h.flag

/-- All that has come of a value has been pushed. -/
theorem Inv.written (h : Inv handle k k' x as s) (hworker : s.worker = .writing) (htodo : s.output.todo = []) :
    Inv handle k k' x as { s with worker := .reading } := by
  obtain ⟨past, hpast, hrun⟩ := h.handled
  rw [hworker] at hpast
  exact ⟨h.input, h.output, h.all, ⟨past, hpast, hrun⟩, fun hne => absurd htodo hne, fun _ => rfl, h.flag,
    fun _ hf => by cases hf⟩

theorem Inv.workerStep (h : Inv handle k k' x as s) : Inv handle k k' x as (workerStep handle s) := by
  rw [Pipeline.workerStep]
  split
  next hworker =>
    split_ifs with hleft
    · exact { h with output := h.output.finish (h.todo_eq_nil (by simp [hworker])), flag := fun _ => hleft }
    · exact h.read hworker hleft
  next a hworker =>
    split
    next z cs ha => exact h.handles hworker ha
    next ha => exact h.fails hworker ha
  next hworker =>
    split_ifs with htodo
    · exact h.written hworker (List.isEmpty_iff.mp htodo)
    · exact h.writes hworker
  next => exact h

/-- **Every step keeps the invariant.** -/
theorem Inv.step (h : Inv handle k k' x as s) (turn : Thread) : Inv handle k k' x as (step handle s turn) := by
  cases turn with
  | producer => exact h.producerStep
  | worker => exact h.workerStep
  | consumer => exact h.consumerStep

/-! ### What the consumer gets -/

/-- What has been popped is a first part of all values. -/
theorem Inv.popped_prefix (h : Inv handle k k' x as s) : s.input.got <+: as := by
  rw [← h.all]
  exact h.input.got_prefix.trans (List.prefix_append _ _)

/-- What has been pushed, and what is being pushed, is a first part of what one loop gives. -/
theorem Inv.written_of_run (h : Inv handle k k' x as s) (hrun : runAll handle x as = some (y, bs)) :
    s.output.sent ++ s.output.todo <+: bs := by
  obtain ⟨past, hpast, hpastRun⟩ := h.handled
  obtain ⟨rest, rfl⟩ := (hpast ▸ List.prefix_append past _ : past <+: s.input.got).trans h.popped_prefix
  obtain ⟨z, cs, cs', hcs, -, rfl⟩ := runAll_append hrun
  obtain ⟨-, rfl⟩ := Prod.mk.inj (Option.some.inj (hpastRun.symm.trans hcs))
  exact List.prefix_append _ _

/-- The value that has been popped can be handled, where all of them can. -/
theorem Inv.can_handle (h : Inv handle k k' x as s) (hrun : runAll handle x as = some (y, bs)) {a : A}
    (ha : s.worker.held = [a]) : ∃ r, handle s.state a = some r := by
  obtain ⟨past, hpast, hpastRun⟩ := h.handled
  obtain ⟨rest, rfl⟩ := h.popped_prefix
  rw [← hpast, ha, List.append_assoc] at hrun
  obtain ⟨z, cs, cs', hcs, hrest, -⟩ := runAll_append hrun
  obtain ⟨rfl, -⟩ := Prod.mk.inj (Option.some.inj (hpastRun.symm.trans hcs))
  obtain ⟨r, hr, -⟩ := Option.bind_eq_some_iff.mp (show (handle s.state a).bind _ = _ from hrest)
  exact ⟨r, hr⟩

/-- **When the consumer leaves** one loop over all values gives what it has got. -/
theorem Inv.finished (h : Inv handle k k' x as s) (hleft : s.output.reader = .left) :
    runAll handle x as = some (s.state, s.output.got) := by
  have hdone := h.output.seen (by simp [hleft]) (by simp [hleft])
  have hreader := h.flag hdone
  have hinput := h.input.seen (by simp [hreader]) (by simp [hreader])
  obtain ⟨past, hpast, hrun⟩ := h.handled
  rw [h.between hreader] at hpast
  have hgot : past = s.input.got := (List.append_nil past).symm.trans hpast
  have hall := h.all
  rw [h.input.flag hinput, List.append_nil, ← h.input.got_eq_sent (h.input.left hreader), ← hgot] at hall
  rwa [h.output.flag hdone, List.append_nil, ← h.output.got_eq_sent (h.output.left hleft), hall] at hrun

/-! ### Whose turn it is -/

/-- How far the thread in the middle is. -/
def WorkerPc.phase : WorkerPc A → ℕ
  | .writing => 1
  | _ => 0

/-- What is left for the three, where `total` values go through the second ring; and how far they are. -/
def rank (total : ℕ) (s : State A B S) : ℕ ×ₗ ℕ :=
  toLex (2 * s.input.work + s.output.work + s.worker.held.length + 2 * (total - (s.output.sent ++ s.output.todo).length),
    s.input.phases + s.output.phases + s.worker.phase)

/-- The thread that can bring the three closer to the end: the last one that need not wait. -/
def helper (s : State A B S) : Thread :=
  if ¬ s.output.sys.IsEmpty ∨ s.output.done = true then .consumer
  else
    match s.worker with
    | .reading => if s.input.sys.IsEmpty ∧ s.input.done = false then .producer else .worker
    | _ => .worker

theorem rank_lt {total : ℕ} {s' : State A B S}
    (h : 2 * s'.input.work + s'.output.work + s'.worker.held.length + 2 * (total - (s'.output.sent ++ s'.output.todo).length) <
        2 * s.input.work + s.output.work + s.worker.held.length + 2 * (total - (s.output.sent ++ s.output.todo).length) ∨
      2 * s'.input.work + s'.output.work + s'.worker.held.length + 2 * (total - (s'.output.sent ++ s'.output.todo).length) =
        2 * s.input.work + s.output.work + s.worker.held.length + 2 * (total - (s.output.sent ++ s.output.todo).length) ∧
      s'.input.phases + s'.output.phases + s'.worker.phase < s.input.phases + s.output.phases + s.worker.phase) :
    rank total s' < rank total s := Prod.Lex.toLex_lt_toLex.mpr h

/-- The first ring comes closer to the end. -/
theorem rank_input {total : ℕ} {c : Channel A} (h : Advances s.input c) :
    rank total { s with input := c } < rank total s := by
  refine rank_lt ?_
  rcases h with h | ⟨h, h'⟩
  · exact .inl (by dsimp only; omega)
  · exact .inr ⟨by dsimp only; omega, by dsimp only; omega⟩

/-- The second ring comes closer to the end. -/
theorem rank_output {total : ℕ} {c : Channel B} (h : Advances s.output c)
    (hsame : c.sent ++ c.todo = s.output.sent ++ s.output.todo) : rank total { s with output := c } < rank total s := by
  refine rank_lt ?_
  rcases h with h | ⟨h, h'⟩
  · exact .inl (by dsimp only; rw [hsame]; omega)
  · exact .inr ⟨by dsimp only; rw [hsame]; omega, by dsimp only; omega⟩

/-- Nothing happens at the first ring. -/
theorem rank_input_waits {total : ℕ} {c : Channel A} (h : Waits s.input c) :
    rank total { s with input := c } = rank total s ∧ helper { s with input := c } = helper s := by
  constructor
  · rw [rank, rank, h.work, h.phases]
  · have hempty : c.sys.IsEmpty ↔ s.input.sys.IsEmpty := by
      rw [System.IsEmpty, System.IsEmpty, h.pushes, h.pops]
    simp only [helper, hempty, h.done]

/-- Nothing happens at the second ring. -/
theorem rank_output_waits {total : ℕ} {c : Channel B} (h : Waits s.output c)
    (hsame : c.sent ++ c.todo = s.output.sent ++ s.output.todo) :
    rank total { s with output := c } = rank total s ∧ helper { s with output := c } = helper s := by
  constructor
  · rw [rank, rank, h.work, h.phases, hsame]
  · have hempty : c.sys.IsEmpty ↔ s.output.sys.IsEmpty := by
      rw [System.IsEmpty, System.IsEmpty, h.pushes, h.pops]
    simp only [helper, hempty, h.done]

/-- A step lowers the rank, or nothing happens. -/
def Moves (total : ℕ) (s s' : State A B S) : Prop :=
  rank total s' < rank total s ∨ rank total s' = rank total s ∧ helper s' = helper s

/-- A producer that need not wait lowers the rank. -/
theorem Inv.producer_moves (h : Inv handle k k' x as s) (total : ℕ) :
    Moves total s (Pipeline.producerStep s) ∧
      (s.input.done = false → ¬ s.input.sys.IsFull → rank total (Pipeline.producerStep s) < rank total s) := by
  rw [Pipeline.producerStep]
  split_ifs with htodo
  · cases hdone : s.input.done with
    | true =>
      have hsame : ({ s with input := s.input.finish } : State A B S) = s := by
        rw [Channel.finish, ← hdone]
      rw [hsame]
      exact ⟨.inr ⟨rfl, rfl⟩, fun hd => by cases hd⟩
    | false => exact ⟨.inl (rank_input (finish_advances hdone)), fun _ _ => rank_input (finish_advances hdone)⟩
  · obtain ⟨-, -, hadv | ⟨hwaits, hwait⟩⟩ := h.input.writerStep
    · exact ⟨.inl (rank_input hadv), fun _ _ => rank_input hadv⟩
    · refine ⟨.inr (rank_input_waits hwait), fun _ hfull => ?_⟩
      rcases hwaits with hnil | hf
      · rw [hnil] at htodo
        exact absurd rfl htodo
      · exact absurd hf hfull

/-- A consumer that need not wait lowers the rank. -/
theorem Inv.consumer_moves (h : Inv handle k k' x as s) (total : ℕ) (hgoal : s.output.reader ≠ .left) :
    Moves total s (Pipeline.consumerStep s) ∧
      (¬ s.output.sys.IsEmpty ∨ s.output.done = true → rank total (Pipeline.consumerStep s) < rank total s) := by
  obtain ⟨-, hreads, hadv⟩ := h.output.readerStep
  have hsame : s.output.readerStep.1.sent ++ s.output.readerStep.1.todo = s.output.sent ++ s.output.todo := by
    rw [hreads.todo]
    exact congrArg (· ++ s.output.todo) (congrArg (List.map _) hreads.pushes)
  rw [Pipeline.consumerStep]
  rcases hadv with hadv | ⟨hwaits, -, hwait⟩
  · exact ⟨.inl (rank_output hadv hsame), fun _ => rank_output hadv hsame⟩
  · refine ⟨.inr (rank_output_waits hwait hsame), fun hready => ?_⟩
    rcases hwaits with hleft | ⟨hempty, hdone⟩
    · exact absurd hleft hgoal
    · rcases hready with hne | hd
      · exact absurd hempty hne
      · exact absurd (hdone.symm.trans hd) (by decide)

/-- **The thread in the middle** lowers the rank, or it has to wait for another one. -/
theorem Inv.worker_moves (h : Inv handle k k' x as s) (hrun : runAll handle x as = some (y, bs)) :
    Moves bs.length s (Pipeline.workerStep handle s) ∧
      (helper s = .worker → 0 < k' → rank bs.length (Pipeline.workerStep handle s) < rank bs.length s) := by
  rw [Pipeline.workerStep]
  split
  next hworker =>
    have htodo := h.todo_eq_nil (by simp [hworker])
    split_ifs with hleft
    · cases hdone : s.output.done with
      | true =>
        have hsame : ({ s with output := s.output.finish } : State A B S) = s := by
          rw [Channel.finish, ← hdone]
        rw [hsame]
        refine ⟨.inr ⟨rfl, rfl⟩, fun hhelper => ?_⟩
        rw [helper, if_pos (.inr hdone)] at hhelper
        cases hhelper
      | false =>
        have hlow : rank bs.length { s with output := s.output.finish } < rank bs.length s :=
          rank_output (finish_advances hdone) rfl
        exact ⟨.inl hlow, fun _ _ => hlow⟩
    · obtain ⟨-, hreads, hadv⟩ := h.input.readerStep
      have hpopped := hreads.popped
      generalize s.input.readerStep = r at hadv hpopped
      obtain ⟨input, out⟩ := r
      cases out with
      | some a =>
        have hwork := (hpopped (by simp)).2
        have hlow : rank bs.length (s.read (input, some a)) < rank bs.length s := by
          refine rank_lt (.inl ?_)
          have hbefore : s.worker.held.length = 0 := by rw [hworker]; rfl
          have hafter : (s.read (input, some a)).worker.held.length = 1 := rfl
          rw [hafter, hbefore]
          dsimp only [State.read] at hwork ⊢
          omega
        exact ⟨.inl hlow, fun _ _ => hlow⟩
      | none =>
        rcases hadv with hadv | ⟨hwaits, -, hwait⟩
        · exact ⟨.inl (rank_input hadv), fun _ _ => rank_input hadv⟩
        · refine ⟨.inr (rank_input_waits hwait), fun hhelper => ?_⟩
          rcases hwaits with hl | hstuck
          · exact absurd hl hleft
          · simp only [helper, hworker, if_pos hstuck] at hhelper
            split_ifs at hhelper
  next a hworker =>
    obtain ⟨⟨z, cs⟩, ha⟩ := h.can_handle hrun (a := a) (by rw [hworker]; rfl)
    have htodo := h.todo_eq_nil (by simp [hworker])
    have hroom := (h.handles hworker ha).written_of_run hrun
    rw [ha]
    have hlow : rank bs.length ({ s with output := s.output.offer cs, worker := .writing, state := z } : State A B S) <
        rank bs.length s := by
      refine rank_lt (.inl ?_)
      have hbefore : s.worker.held.length = 1 := by rw [hworker]; rfl
      have hlen := hroom.length_le
      have hsent : (s.output.offer cs).sent = s.output.sent := rfl
      have hoffered : (s.output.offer cs).todo = cs := rfl
      simp only [work_offer htodo, hsent, hoffered, List.length_append] at hlen ⊢
      rw [hbefore, htodo]
      show _ + 0 + _ < _
      simp only [List.length_nil]
      omega
    exact ⟨.inl hlow, fun _ _ => hlow⟩
  next hworker =>
    split_ifs with htodo
    · have hlow : rank bs.length ({ s with worker := .reading } : State A B S) < rank bs.length s := by
        refine rank_lt (.inr ⟨?_, ?_⟩)
        · rw [hworker]
          rfl
        · rw [hworker]
          exact Nat.lt_succ_self _
      exact ⟨.inl hlow, fun _ _ => hlow⟩
    · obtain ⟨-, hwrites, hadv | ⟨hwaits, hwait⟩⟩ := h.output.writerStep
      · exact ⟨.inl (rank_output hadv hwrites.moved), fun _ _ => rank_output hadv hwrites.moved⟩
      · refine ⟨.inr (rank_output_waits hwait hwrites.moved), fun hhelper hk => ?_⟩
        rcases hwaits with hnil | hfull
        · rw [hnil] at htodo
          exact absurd rfl htodo
        · by_cases hempty : s.output.sys.IsEmpty
          · exact absurd hfull (h.output.not_isFull hk hempty)
          · rw [helper, if_pos (.inl hempty)] at hhelper
            cases hhelper
  next a hworker =>
    obtain ⟨r, hr⟩ := h.can_handle hrun (a := a) (by rw [hworker]; rfl)
    rw [h.failed a hworker] at hr
    cases hr

/-- **Somebody can always help** until the consumer leaves. -/
theorem helpful (hrun : runAll handle x as = some (y, bs)) (hk : 0 < k) (hk' : 0 < k') :
    Helpful (step handle) (Inv handle k k' x as) (fun s => s.output.reader = .left) (rank bs.length) helper where
  keeps s turn h := h.step turn
  helps s h hgoal := by
    cases hhelper : helper s with
    | consumer =>
      refine (h.consumer_moves bs.length hgoal).2 ?_
      by_contra hnot
      rw [helper, if_neg hnot] at hhelper
      split at hhelper
      next => split_ifs at hhelper
      next => cases hhelper
    | worker => exact (h.worker_moves hrun).2 hhelper hk'
    | producer =>
      have hstuck : s.input.sys.IsEmpty ∧ s.input.done = false := by
        by_contra hnot
        rw [helper, if_neg hnot] at hhelper
        split_ifs at hhelper
        split at hhelper
        next => cases hhelper
        next => cases hhelper
      exact (h.producer_moves bs.length).2 hstuck.2 (h.input.not_isFull hk hstuck.1)
  waits s turn h hgoal := by
    cases turn with
    | producer => exact (h.producer_moves bs.length).1
    | worker => exact (h.worker_moves hrun).1
    | consumer => exact (h.consumer_moves bs.length hgoal).1

end MatchingEngine.Pipeline
