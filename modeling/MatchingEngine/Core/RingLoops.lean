import MatchingEngine.Core.SpscRing
import MatchingEngine.Foundation.FairRuns

/-!
# The loops around a ring

How the threads of `test_threaded.cpp` use a ring. A writer pushes value after value, each again
until `push` returns true, and sets a flag when it is done. A reader pops; when `pop` returns
false it looks at the flag, and, if that is set, it asks whether the ring is empty, and leaves
if so. A `Channel` is a ring with both loops; each function below is one step of one of them,
that is, of `push`, of `pop` or of the loop.

`Ok.writerStep` and `Ok.readerStep` say what a step keeps, and that it comes closer to the end
unless the ring is full, or it is empty and the flag is not set.
-/

namespace MatchingEngine

/-! ### What a call does next -/

namespace PushPc

variable {T : Type}

/-- How many steps are left until it returns true. -/
def phase : PushPc T → ℕ
  | .idle => 4
  | .loadedTail .. => 3
  | .loadedHead .. => 2
  | .wrote .. => 1

end PushPc

/-- How many steps are left until a call of `pop` returns true. -/
def PopPc.phase {T : Type} : PopPc T → ℕ
  | .idle => 4
  | .loadedHead _ => 3
  | .loadedTail _ => 2
  | .read .. => 1

theorem PopPc.phase_pos {T : Type} (pc : PopPc T) : 0 < pc.phase := by cases pc <;> exact Nat.succ_pos _

namespace System

variable {T : Type} {k : ℕ} {s : System T} {item : T}

/-- All values that the ring can hold are in it. -/
def IsFull (s : System T) : Prop := s.pushes.length = s.pops.length + s.ring.mask

/-- No value is in it. -/
def IsEmpty (s : System T) : Prop := s.pushes.length = s.pops.length

instance : Decidable s.IsFull := inferInstanceAs (Decidable (_ = _))

instance : Decidable s.IsEmpty := inferInstanceAs (Decidable (_ = _))

/-- **What a step of `push` can do.** -/
inductive Pushes (s : System T) (item : T) : System T × Option Bool → Prop
  /-- The call goes on. -/
  | goesOn (pc : PushPc T) (buf : ℕ → T) : pc.phase < s.producer.phase → pc.item = some item →
      Pushes s item ({ s with ring := { s.ring with buf := buf }, producer := pc }, none)
  /-- It returns true. -/
  | pushed (tail next : ℕ) : Pushes s item
      ({ s with ring := { s.ring with tail := next }, producer := .idle, pushes := s.pushes ++ [(tail, item)] }, some true)
  /-- It returns false. -/
  | full : s.IsFull → Pushes s item ({ s with producer := .idle }, some false)

theorem Ordered.pushes (h : Ordered (2 ^ k) s) (hitem : ∀ x ∈ s.producer.item, x = item) :
    Pushes s item (s.producerStep item) := by
  have hfull := (h.producerStep item).2
  have hmask := h.mask
  have hpos := Nat.two_pow_pos k
  rw [System.producerStep] at hfull ⊢
  cases hpc : s.producer with
  | idle => exact .goesOn (.loadedTail item s.ring.tail) s.ring.buf (by rw [hpc]; exact Nat.lt_succ_self 3) rfl
  | loadedTail x tail =>
    obtain rfl : x = item := hitem x (by rw [hpc]; exact rfl)
    rw [hpc] at hfull
    dsimp only at hfull ⊢
    split_ifs with hnext
    · rw [if_pos hnext] at hfull
      have := hfull rfl
      exact .full (by rw [IsFull]; omega)
    · exact .goesOn (.loadedHead x tail _) s.ring.buf (by rw [hpc]; exact Nat.lt_succ_self 2) rfl
  | loadedHead x tail next =>
    obtain rfl : x = item := hitem x (by rw [hpc]; exact rfl)
    exact .goesOn (.wrote x tail next) _ (by rw [hpc]; exact Nat.lt_succ_self 1) rfl
  | wrote x tail next =>
    obtain rfl : x = item := hitem x (by rw [hpc]; exact rfl)
    exact .pushed tail next

/-- **What a step of `pop` can do.** -/
inductive Pops (s : System T) : System T × Option (Option T) → Prop
  /-- The call goes on. -/
  | goesOn (pc : PopPc T) : pc.phase < s.consumer.phase → Pops s ({ s with consumer := pc }, none)
  /-- It returns true. -/
  | popped (head next : ℕ) (out : T) : s.pops.length < s.pushes.length → Pops s
      ({ s with ring := { s.ring with head := next }, consumer := .idle, pops := s.pops ++ [(head, out)] }, some (some out))
  /-- It returns false. -/
  | empty : s.IsEmpty → Pops s ({ s with consumer := .idle }, some none)

theorem Ordered.popsStep (h : Ordered (2 ^ k) s) : Pops s s.consumerStep := by
  have hempty := h.consumerStep.2
  have hc := h.consumer
  rw [System.consumerStep] at hempty ⊢
  cases hpc : s.consumer with
  | idle => exact .goesOn (.loadedHead s.ring.head) (by rw [hpc]; exact Nat.lt_succ_self 3)
  | loadedHead head =>
    rw [hpc] at hempty
    dsimp only at hempty ⊢
    split_ifs with htail
    · rw [if_pos htail] at hempty
      exact .empty (hempty rfl)
    · exact .goesOn (.loadedTail head) (by rw [hpc]; exact Nat.lt_succ_self 2)
  | loadedTail head => exact .goesOn (.read head _) (by rw [hpc]; exact Nat.lt_succ_self 1)
  | read head out =>
    rw [hpc] at hc
    exact .popped head _ out (List.getElem?_eq_some_iff.mp hc.2).1

/-- The words of an empty ring are equal, and those of another ring are not. -/
theorem Ordered.isEmpty_iff (h : Ordered (2 ^ k) s) : s.ring.head = s.ring.tail ↔ s.IsEmpty := by
  rw [h.head, h.tail, IsEmpty, eq_comm]
  exact mod_eq_mod_iff h.le h.lt

end System

/-! ### The loops -/

/-- Where a reader is. -/
inductive ReaderPc where
  /-- It is in a call of `pop`, or in front of one. -/
  | popping
  /-- `pop` has returned false, and the flag is being loaded. -/
  | checking
  /-- The flag was set, and `empty()` loads `head_`. -/
  | emptyHead
  /-- `empty()` loads `tail_`. Nobody else writes `head_`, so the order of the two does not matter. -/
  | emptyTail (head : ℕ)
  /-- It has left the loop. -/
  | left
  deriving DecidableEq

/-- How many steps are left until a reader that has found an empty ring leaves, or pops again. -/
def ReaderPc.phase : ReaderPc → ℕ
  | .checking => 3
  | .emptyHead => 2
  | .emptyTail _ => 1
  | _ => 0

/-- A ring, with its writer's loop and its reader's loop. -/
structure Channel (T : Type) where
  /-- The ring, with the calls that are running. -/
  sys : System T
  /-- The values that have not been pushed; the first one is being pushed. -/
  todo : List T
  /-- The flag that the writer sets. -/
  done : Bool
  /-- The reader. -/
  reader : ReaderPc

namespace Channel

variable {T : Type}

/-- Before the first step. -/
def new [Inhabited T] (capacity : ℕ) (todo : List T) : Channel T where
  sys := .new capacity
  todo := todo
  done := false
  reader := .popping

/-- The writer after a step of `push`, where `rest` is what follows the value. -/
def wrote (c : Channel T) (rest : List T) : System T × Option Bool → Channel T
  | (sys, some true) => { c with sys := sys, todo := rest }
  | (sys, _) => { c with sys := sys }

/-- A step of `while (!ring.push(x)) yield();`, for one value after the other. -/
def writerStep (c : Channel T) : Channel T :=
  match c.todo with
  | [] => c
  | x :: xs => c.wrote xs (c.sys.producerStep x)

/-- The reader after a step of `pop`, and the value that it has popped. -/
def read (c : Channel T) : System T × Option (Option T) → Channel T × Option T
  | (sys, some (some out)) => ({ c with sys := sys }, some out)
  | (sys, some none) => ({ c with sys := sys, reader := .checking }, none)
  | (sys, none) => ({ c with sys := sys }, none)

/-- A step of `while (true) { if (ring.pop(x)) …; else if (done && ring.empty()) break; }`, and the value that it
pops. -/
def readerStep (c : Channel T) : Channel T × Option T :=
  match c.reader with
  | .popping => c.read c.sys.consumerStep
  | .checking => ({ c with reader := if c.done then .emptyHead else .popping }, none)
  | .emptyHead => ({ c with reader := .emptyTail c.sys.ring.head }, none)
  | .emptyTail head => ({ c with reader := if head = c.sys.ring.tail then .left else .popping }, none)
  | .left => (c, none)

/-- The values that have been pushed. -/
def sent (c : Channel T) : List T := c.sys.pushes.map (·.2)

/-- The values that have been popped. -/
def got (c : Channel T) : List T := c.sys.pops.map (·.2)

/-- **What holds of a channel** at every moment. -/
structure Ok (k : ℕ) (c : Channel T) : Prop where
  /-- The ring. -/
  ordered : System.Ordered (2 ^ k) c.sys
  /-- What is being pushed is the first of what is left. -/
  pushing : ∀ x ∈ c.sys.producer.item, c.todo.head? = some x
  /-- The flag is set when nothing is left. -/
  flag : c.done = true → c.todo = []
  /-- The reader is past `pop` if it has seen the flag, or looks for it. -/
  idle : c.reader ≠ .popping → c.sys.consumer = .idle
  /-- It has seen the flag. -/
  seen : c.reader ≠ .popping → c.reader ≠ .checking → c.done = true
  /-- The word that `empty()` has loaded. -/
  head : ∀ head, c.reader = .emptyTail head → head = c.sys.ring.head
  /-- It leaves an empty ring. -/
  left : c.reader = .left → c.sys.IsEmpty

variable {k : ℕ} {c : Channel T}

theorem ok_new [Inhabited T] (k : ℕ) (todo : List T) : (new (2 ^ k) todo).Ok k where
  ordered := System.ordered_new k
  pushing _ hx := by cases hx
  flag h := by cases h
  idle h := absurd rfl h
  seen h := absurd rfl h
  head _ h := by cases h
  left h := by cases h

/-- What is popped is what was pushed first. -/
theorem Ok.got_prefix (h : c.Ok k) : c.got <+: c.sent := h.ordered.fifo.order

theorem Ok.got_eq_sent (h : c.Ok k) (he : c.sys.IsEmpty) : c.got = c.sent := by
  refine h.got_prefix.eq_of_length ?_
  rw [got, sent, List.length_map, List.length_map]
  exact he.symm

/-! ### The writer -/

/-- How a channel changes when its writer makes a step, or waits. -/
structure Writes (c c' : Channel T) : Prop where
  /-- What is pushed goes from one list to the other. -/
  moved : c'.sent ++ c'.todo = c.sent ++ c.todo
  /-- The rest is the reader's, or the flag. -/
  pops : c'.sys.pops = c.sys.pops
  /-- The reader. -/
  reader : c'.reader = c.reader
  /-- The flag. -/
  done : c'.done = c.done

/-- What is left for both. A push leaves less to the writer, and more, but not as much, to the reader. -/
def work (c : Channel T) : ℕ :=
  2 * c.todo.length + (c.sys.pushes.length - c.sys.pops.length) + (if c.done then 0 else 1) +
    if c.reader = .left then 0 else 1

/-- The writer has nothing to push, or it has to wait for the reader. -/
def WriterWaits (c : Channel T) : Prop := c.todo = [] ∨ c.sys.IsFull

/-- The reader has left, or it has to wait for the writer. -/
def ReaderWaits (c : Channel T) : Prop := c.reader = .left ∨ c.sys.IsEmpty ∧ c.done = false

/-- How far the writer's call is, if it can return true. -/
def writerPhase (c : Channel T) : ℕ := if c.todo = [] ∨ c.sys.IsFull then 0 else c.sys.producer.phase

/-- How far the reader is on its way to a value, or, when there is none, out of its loop. -/
def loopPhase (c : Channel T) : ℕ :=
  if c.reader = .popping then c.sys.consumer.phase + (if c.sys.IsEmpty then 3 else 0)
  else c.reader.phase + if c.sys.IsEmpty then 0 else 4

/-- The same, if it need not wait. -/
def readerPhase (c : Channel T) : ℕ := if c.sys.IsEmpty ∧ c.done = false then 0 else c.loopPhase

/-- How far the two loops are. -/
def phases (c : Channel T) : ℕ := c.writerPhase + c.readerPhase

/-- It comes closer to the end: less is left, or a loop has got further. -/
def Advances (c c' : Channel T) : Prop := c'.work < c.work ∨ c'.work = c.work ∧ c'.phases < c.phases

/-- A step that comes to nothing: nothing is pushed or popped, and both loops are as far as before. -/
structure Waits (c c' : Channel T) : Prop where
  /-- What is left. -/
  work : c'.work = c.work
  /-- The loops. -/
  phases : c'.phases = c.phases
  /-- What has been pushed. -/
  pushes : c'.sys.pushes = c.sys.pushes
  /-- What has been popped. -/
  pops : c'.sys.pops = c.sys.pops
  /-- The flag. -/
  done : c'.done = c.done

/-- **The writer's steps.** -/
theorem Ok.writerStep (h : c.Ok k) : c.writerStep.Ok k ∧ Writes c c.writerStep ∧
    (Advances c c.writerStep ∨ c.WriterWaits ∧ Waits c c.writerStep) := by
  rw [Channel.writerStep]
  cases htodo : c.todo with
  | nil => exact ⟨h, ⟨rfl, rfl, rfl, rfl⟩, .inr ⟨.inl htodo, rfl, rfl, rfl, rfl, rfl⟩⟩
  | cons x xs =>
    dsimp only
    have hitem : ∀ y ∈ c.sys.producer.item, y = x := by
      intro y hy
      have := h.pushing y hy
      rw [htodo] at this
      exact (Option.some.inj this).symm
    have hflag : c.done ≠ true := fun hd => by
      have := h.flag hd
      rw [htodo] at this
      cases this
    have hle := h.ordered.le
    have hordered := (h.ordered.producerStep x).1
    have hpushes := h.ordered.pushes hitem
    generalize c.sys.producerStep x = r at hordered hpushes
    cases hpushes with
    | goesOn pc buf hphase hpc =>
      refine ⟨⟨hordered, fun y hy => ?_, h.flag, h.idle, h.seen, h.head, h.left⟩, ⟨rfl, rfl, rfl, rfl⟩, ?_⟩
      · have hy : y ∈ pc.item := hy
        rw [hpc] at hy
        rw [← Option.mem_some_iff.mp hy]
        exact congrArg List.head? htodo
      · by_cases hfull : c.sys.IsFull
        · refine .inr ⟨.inr hfull, rfl, ?_, rfl, rfl, rfl⟩
          rw [phases, phases, writerPhase, writerPhase, if_pos (.inr hfull), if_pos (.inr hfull)]
          rfl
        · have hne : ¬ (c.todo = [] ∨ c.sys.IsFull) := by
            rw [htodo]
            simpa using hfull
          refine .inl (.inr ⟨rfl, Nat.add_lt_add_right ?_ _⟩)
          rw [writerPhase, writerPhase, if_neg hne]
          exact (if_neg hne).trans_lt hphase
    | pushed tail next =>
      refine ⟨⟨hordered, fun y hy => (by cases hy), fun hd => absurd hd hflag, h.idle, h.seen, h.head, fun hl => ?_⟩,
        ⟨?_, rfl, rfl, rfl⟩, .inl (.inl ?_)⟩
      · have hl : c.reader = .left := hl
        exact absurd (h.seen (by rw [hl]; decide) (by rw [hl]; decide)) hflag
      · simp [wrote, sent, htodo]
      · show 2 * xs.length + ((c.sys.pushes ++ [(tail, x)]).length - c.sys.pops.length) + (if c.done then 0 else 1) +
          (if c.reader = .left then 0 else 1) < c.work
        rw [work, htodo, List.length_cons, List.length_append, List.length_singleton]
        omega
    | full hfull =>
      refine ⟨⟨hordered, fun y hy => (by cases hy), h.flag, h.idle, h.seen, h.head, h.left⟩, ⟨rfl, rfl, rfl, rfl⟩,
        .inr ⟨.inr hfull, rfl, ?_, rfl, rfl, rfl⟩⟩
      rw [phases, phases, writerPhase, writerPhase, if_pos (.inr hfull), if_pos (.inr hfull)]
      rfl

/-- The flag is set. -/
def finish (c : Channel T) : Channel T := { c with done := true }

/-- The writer sets its flag when nothing is left. -/
theorem Ok.finish (h : c.Ok k) (htodo : c.todo = []) : c.finish.Ok k where
  ordered := h.ordered
  pushing := h.pushing
  flag _ := htodo
  idle := h.idle
  seen _ _ := rfl
  head := h.head
  left := h.left

/-- The writer has new values to push. -/
def offer (c : Channel T) (xs : List T) : Channel T := { c with todo := xs }

/-- It has, where none was left. -/
theorem Ok.offer (h : c.Ok k) (htodo : c.todo = []) (hdone : c.done = false) (xs : List T) : (c.offer xs).Ok k where
  ordered := h.ordered
  pushing x hx := by
    have := h.pushing x hx
    rw [htodo] at this
    cases this
  flag hd := absurd (hdone.symm.trans hd) (by decide)
  idle := h.idle
  seen := h.seen
  head := h.head
  left := h.left

theorem work_offer (htodo : c.todo = []) (xs : List T) : (c.offer xs).work = c.work + 2 * xs.length := by
  show 2 * xs.length + (c.sys.pushes.length - c.sys.pops.length) + (if c.done then 0 else 1) +
    (if c.reader = .left then 0 else 1) = _
  rw [work, htodo, List.length_nil]
  omega

theorem finish_advances (h : c.done = false) : Advances c c.finish := by
  refine .inl ?_
  show _ + 0 + (if c.reader = .left then 0 else 1) < c.work
  rw [work, h]
  exact Nat.add_lt_add_right (Nat.lt_succ_self _) _

/-- A ring that can hold a value is not full when it is empty. -/
theorem Ok.not_isFull (h : c.Ok k) (hk : 0 < k) (he : c.sys.IsEmpty) : ¬ c.sys.IsFull := by
  have hmask := h.ordered.mask
  have hpos : 1 < 2 ^ k := Nat.one_lt_two_pow hk.ne'
  rw [System.IsFull, he, hmask]
  omega

/-! ### The reader -/

/-- How a channel changes when its reader makes a step. -/
structure Reads (c c' : Channel T) (out : Option T) : Prop where
  /-- What it pops. -/
  got : c'.got = c.got ++ out.toList
  /-- It is still in the loop then, and less is left. -/
  popped : out ≠ none → c'.reader = c.reader ∧ c'.work < c.work
  /-- The rest is the writer's. -/
  pushes : c'.sys.pushes = c.sys.pushes
  /-- What is left to push. -/
  todo : c'.todo = c.todo
  /-- The flag. -/
  done : c'.done = c.done

/-- The reader goes on elsewhere. -/
def goto (c : Channel T) (consumer : PopPc T) (reader : ReaderPc) : Channel T :=
  { c with sys := { c.sys with consumer := consumer }, reader := reader }

/-- **What a step of the reader can do.** -/
inductive ReadsStep (c : Channel T) : Channel T × Option T → Prop
  /-- It goes on, in its loop or in a call. -/
  | goesOn (consumer : PopPc T) (reader : ReaderPc) : c.reader ≠ .left → reader ≠ .left →
      (¬ (c.sys.IsEmpty ∧ c.done = false) → (c.goto consumer reader).loopPhase < c.loopPhase) →
      ReadsStep c (c.goto consumer reader, none)
  /-- It pops a value. -/
  | popped (head next : ℕ) (out : T) : c.sys.pops.length < c.sys.pushes.length → ReadsStep c
      ({ c with sys := { c.sys with ring := { c.sys.ring with head := next }, consumer := .idle,
                                    pops := c.sys.pops ++ [(head, out)] } }, some out)
  /-- It leaves. -/
  | leaves : c.reader ≠ .left → ReadsStep c (c.goto .idle .left, none)
  /-- It has left. -/
  | stays : c.reader = .left → ReadsStep c (c, none)

theorem Ok.goto (h : c.Ok k) {consumer : PopPc T} {reader : ReaderPc}
    (hordered : System.Ordered (2 ^ k) { c.sys with consumer := consumer }) (hidle : reader ≠ .popping → consumer = .idle)
    (hseen : reader ≠ .popping → reader ≠ .checking → c.done = true)
    (hhead : ∀ head, reader = .emptyTail head → head = c.sys.ring.head) (hleft : reader = .left → c.sys.IsEmpty) :
    (c.goto consumer reader).Ok k :=
  ⟨hordered, h.pushing, h.flag, hidle, hseen, hhead, hleft⟩

/-- A reader that is not in a call has no call running. -/
theorem Ok.goto_idle (h : c.Ok k) (hr : c.reader ≠ .popping) (reader : ReaderPc) :
    ({ c with reader := reader } : Channel T) = c.goto .idle reader := by
  rw [Channel.goto, ← h.idle hr]

theorem loopPhase_goto (c : Channel T) (consumer : PopPc T) (reader : ReaderPc) :
    (c.goto consumer reader).loopPhase =
      if reader = .popping then consumer.phase + (if c.sys.IsEmpty then 3 else 0)
      else reader.phase + if c.sys.IsEmpty then 0 else 4 := rfl

theorem Ok.readsStep (h : c.Ok k) : c.readerStep.1.Ok k ∧ ReadsStep c c.readerStep := by
  rw [Channel.readerStep]
  by_cases hpop : c.reader = .popping
  · have hl : c.reader ≠ .left := by simp [hpop]
    have hordered := h.ordered.consumerStep.1
    have hpops := h.ordered.popsStep
    rw [hpop]
    dsimp only
    generalize c.sys.consumerStep = r at hordered hpops
    cases hpops with
    | goesOn pc hphase =>
      have heq : c.read ({ c.sys with consumer := pc }, none) = (c.goto pc .popping, none) := by
        rw [read, Channel.goto, ← hpop]
      rw [heq]
      refine ⟨h.goto hordered (by simp) (by simp) (by simp) (by simp), .goesOn pc .popping hl (by simp) fun _ => ?_⟩
      rw [loopPhase_goto, loopPhase, if_pos hpop, if_pos rfl]
      exact Nat.add_lt_add_right hphase _
    | popped head next out hlt =>
      refine ⟨⟨hordered, h.pushing, h.flag, fun _ => rfl, h.seen, fun _ hh => ?_, fun hl' => absurd hl' hl⟩,
        .popped head next out hlt⟩
      exact absurd (hpop.symm.trans hh) (by simp)
    | empty hempty =>
      refine ⟨h.goto hordered (by simp) (by simp) (by simp) (by simp), .goesOn .idle .checking hl (by simp) fun _ => ?_⟩
      have hpos := c.sys.consumer.phase_pos
      have hbefore : c.loopPhase = c.sys.consumer.phase + 3 := by rw [loopPhase, if_pos hpop, if_pos hempty]
      rw [loopPhase_goto, hbefore, if_neg (by simp), if_pos hempty]
      show 3 < c.sys.consumer.phase + 3
      omega
  · -- the loop, between two calls
    have hordered : System.Ordered (2 ^ k) { c.sys with consumer := .idle } := by
      rw [← h.idle hpop]
      exact h.ordered
    have hphase : c.loopPhase = c.reader.phase + if c.sys.IsEmpty then 0 else 4 := if_neg hpop
    have hseen := h.seen hpop
    cases hreader : c.reader with
    | popping => exact absurd hreader hpop
    | checking =>
      rw [hreader] at hphase
      dsimp only
      rw [h.goto_idle hpop]
      refine ⟨h.goto hordered (fun _ => rfl) ?_ ?_ ?_, .goesOn _ _ (by simp [hreader]) ?_ fun hstuck => ?_⟩
      · split_ifs with hd <;> simp [hd]
      · split_ifs <;> simp
      · split_ifs <;> simp
      · split_ifs <;> simp
      · rw [hphase, loopPhase_goto]
        cases hd : c.done with
        | true => exact Nat.add_lt_add_right (Nat.lt_succ_self 2) _
        | false =>
          have hne : ¬ c.sys.IsEmpty := fun he => hstuck ⟨he, hd⟩
          simp [hne, PopPc.phase, ReaderPc.phase]
    | emptyHead =>
      rw [hreader] at hphase
      dsimp only
      rw [h.goto_idle hpop]
      refine ⟨h.goto hordered (fun _ => rfl) (fun _ _ => hseen (by simp [hreader])) ?_ (by simp),
        .goesOn _ _ (by simp [hreader]) (by simp) fun _ => ?_⟩
      · intro head hh
        exact (ReaderPc.emptyTail.inj hh).symm
      · rw [hphase, loopPhase_goto]
        exact Nat.add_lt_add_right (Nat.lt_succ_self 1) _
    | emptyTail head =>
      rw [hreader] at hphase
      dsimp only
      rw [h.goto_idle hpop, h.head head hreader]
      have hl : c.reader ≠ .left := by simp [hreader]
      by_cases hempty : c.sys.ring.head = c.sys.ring.tail
      · rw [if_pos hempty]
        exact ⟨h.goto hordered (fun _ => rfl) (fun _ _ => hseen (by simp [hreader])) (by simp)
          fun _ => h.ordered.isEmpty_iff.mp hempty, .leaves hl⟩
      · rw [if_neg hempty]
        refine ⟨h.goto hordered (by simp) (by simp) (by simp) (by simp), .goesOn _ _ hl (by simp) fun _ => ?_⟩
        have hne : ¬ c.sys.IsEmpty := h.ordered.isEmpty_iff.not.mp hempty
        simp [hphase, loopPhase_goto, hne, PopPc.phase, ReaderPc.phase]
    | left => exact ⟨h, .stays hreader⟩

/-- **The reader's steps.** -/
theorem Ok.readerStep (h : c.Ok k) : c.readerStep.1.Ok k ∧ Reads c c.readerStep.1 c.readerStep.2 ∧
    (Advances c c.readerStep.1 ∨ c.ReaderWaits ∧ c.readerStep.2 = none ∧ Waits c c.readerStep.1) := by
  obtain ⟨hok, hstep⟩ := h.readsStep
  refine ⟨hok, ?_⟩
  generalize c.readerStep = r at hstep
  cases hstep with
  | goesOn consumer reader hc hr hlow =>
    have hwork : (c.goto consumer reader).work = c.work := by
      rw [work, work, if_neg hc, if_neg (show (c.goto consumer reader).reader ≠ .left from hr)]
      rfl
    have hwriter : (c.goto consumer reader).writerPhase = c.writerPhase := rfl
    refine ⟨⟨(List.append_nil _).symm, fun hn => absurd rfl hn, rfl, rfl, rfl⟩, ?_⟩
    by_cases hstuck : c.sys.IsEmpty ∧ c.done = false
    · refine .inr ⟨.inr hstuck, rfl, hwork, ?_, rfl, rfl, rfl⟩
      rw [phases, phases, hwriter, readerPhase, readerPhase, if_pos hstuck]
      exact congrArg (c.writerPhase + ·) (if_pos hstuck)
    · refine .inl (.inr ⟨hwork, Nat.add_lt_add_left ?_ _⟩)
      rw [readerPhase, readerPhase, if_neg hstuck]
      exact (if_neg hstuck).trans_lt (hlow hstuck)
  | popped head next out hlt =>
    have hwork : 2 * c.todo.length + (c.sys.pushes.length - (c.sys.pops ++ [(head, out)]).length) +
        (if c.done then 0 else 1) + (if c.reader = .left then 0 else 1) < c.work := by
      rw [work, List.length_append, List.length_singleton]
      omega
    exact ⟨⟨by simp [got], fun _ => ⟨rfl, hwork⟩, rfl, rfl, rfl⟩, .inl (.inl hwork)⟩
  | leaves hl =>
    refine ⟨⟨(List.append_nil _).symm, fun hn => absurd rfl hn, rfl, rfl, rfl⟩, .inl (.inl ?_)⟩
    rw [work, work, if_neg hl]
    exact Nat.lt_succ_self _
  | stays hl => exact ⟨⟨(List.append_nil _).symm, fun hn => absurd rfl hn, rfl, rfl, rfl⟩, .inr ⟨.inl hl, rfl, rfl, rfl, rfl, rfl, rfl⟩⟩

end Channel

end MatchingEngine
