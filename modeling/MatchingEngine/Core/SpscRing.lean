import Mathlib.Data.List.Basic
import Mathlib.Data.Nat.Bitwise
import Mathlib.Data.Nat.ModEq
import Mathlib.Logic.Function.Basic
import Mathlib.Tactic.SplitIfs

/-!
# The ring between two threads

`cpp/include/spsc_ring.h`: a ring buffer with one producer, which runs `push` again and again, and
one consumer, which runs `pop`. Each call is the steps that touch what the threads share, and the
scheduler picks who makes the next step. The atomics are sequentially consistent.

Beside the members of the class a `System` keeps what has happened: the slot and the value of each
push and pop that returned true (`pushes_producerStep`, `pops_consumerStep`). A value is in the ring
from the store to `tail_` until the store to `head_`.
-/

namespace MatchingEngine

/-! ### The class -/

/-- The members of `SpscRingBuffer`. -/
structure SpscRingBuffer (T : Type) where
  /-- `mask_`. -/
  mask : ℕ
  /-- `buf_`. -/
  buf : ℕ → T
  /-- `head_`, written by the consumer. -/
  head : ℕ
  /-- `tail_`, written by the producer. -/
  tail : ℕ

/-- Where a call of `push` is. -/
inductive PushPc (T : Type) where
  /-- No call is running. -/
  | idle
  /-- `tail_` has been loaded. -/
  | loadedTail (item : T) (tail : ℕ)
  /-- `head_` has been loaded, and the ring is not full: the slot `tail` is being written. -/
  | loadedHead (item : T) (tail next : ℕ)
  /-- The slot has been written. -/
  | wrote (item : T) (tail next : ℕ)

/-- The item of the call of `push` that is running. -/
def PushPc.item {T : Type} : PushPc T → Option T
  | .idle => none
  | .loadedTail item _ => some item
  | .loadedHead item _ _ => some item
  | .wrote item _ _ => some item

/-- Where a call of `pop` is. -/
inductive PopPc (T : Type) where
  /-- No call is running. -/
  | idle
  /-- `head_` has been loaded. -/
  | loadedHead (head : ℕ)
  /-- `tail_` has been loaded, and the ring is not empty: the slot `head` is being read. -/
  | loadedTail (head : ℕ)
  /-- The slot has been read. -/
  | read (head : ℕ) (out : T)

/-- The ring, the two threads, and what they have done. -/
structure System (T : Type) where
  /-- The ring. -/
  ring : SpscRingBuffer T
  /-- The producer. -/
  producer : PushPc T
  /-- The consumer. -/
  consumer : PopPc T
  /-- The slot and the value of each push that returned true. -/
  pushes : List (ℕ × T)
  /-- The slot and the value of each pop that returned true. -/
  pops : List (ℕ × T)

namespace System

variable {T : Type}

/-- A new ring, before the first call. -/
def new [Inhabited T] (capacity : ℕ) : System T where
  ring := { mask := capacity - 1, buf := fun _ => default, head := 0, tail := 0 }
  producer := .idle
  consumer := .idle
  pushes := []
  pops := []

/-- The producer's next step, and what `push` returns if it returns in it. A call that begins is of `push(item)`. -/
def producerStep (s : System T) (item : T) : System T × Option Bool :=
  match s.producer with
  | .idle => ({ s with producer := .loadedTail item s.ring.tail }, none)
  | .loadedTail item tail =>
    let next := (tail + 1) &&& s.ring.mask
    if next = s.ring.head then ({ s with producer := .idle }, some false)
    else ({ s with producer := .loadedHead item tail next }, none)
  | .loadedHead item tail next =>
    ({ s with ring := { s.ring with buf := Function.update s.ring.buf tail item }, producer := .wrote item tail next }, none)
  | .wrote item tail next =>
    ({ s with ring := { s.ring with tail := next }, producer := .idle, pushes := s.pushes ++ [(tail, item)] }, some true)

/-- The consumer's next step, and what `pop` returns if it returns in it, with `none` for false. -/
def consumerStep (s : System T) : System T × Option (Option T) :=
  match s.consumer with
  | .idle => ({ s with consumer := .loadedHead s.ring.head }, none)
  | .loadedHead head =>
    if head = s.ring.tail then ({ s with consumer := .idle }, some none)
    else ({ s with consumer := .loadedTail head }, none)
  | .loadedTail head => ({ s with consumer := .read head (s.ring.buf head) }, none)
  | .read head out =>
    ({ s with ring := { s.ring with head := (head + 1) &&& s.ring.mask }, consumer := .idle,
              pops := s.pops ++ [(head, out)] }, some (some out))

end System

/-- Who makes the next step. -/
inductive Turn (T : Type) where
  /-- The producer; the item is used if a call begins. -/
  | producer (item : T)
  /-- The consumer. -/
  | consumer

namespace System

variable {T : Type}

/-- One step. -/
def step (s : System T) : Turn T → System T
  | .producer item => (s.producerStep item).1
  | .consumer => s.consumerStep.1

/-- The steps of a schedule. -/
def run (s : System T) (turns : List (Turn T)) : System T := turns.foldl step s

/-- The values in the ring: pushed, and not popped. -/
def unread (s : System T) : List (ℕ × T) := s.pushes.drop s.pops.length

/-- The consumer is reading a slot: it knows that there is a value, and has not given the slot back. -/
def Reading (s : System T) (slot : ℕ) : Prop :=
  s.consumer = .loadedTail slot ∨ ∃ out, s.consumer = .read slot out

/-! ### Positions -/

/-- Positions that are less than a turn apart are told by their slots. -/
theorem mod_eq_mod_iff {C m n : ℕ} (h : m ≤ n) (hlt : n < m + C) : n % C = m % C ↔ n = m := by
  constructor
  · intro he
    have hdvd : C ∣ n - m := (Nat.modEq_iff_dvd' h).mp he.symm
    have := Nat.eq_zero_of_dvd_of_lt hdvd (by omega)
    omega
  · rintro rfl
    rfl

/-- What the producer knows, `n` values having been pushed and `m` popped. -/
def PushOk (C m n : ℕ) (buf : ℕ → T) : PushPc T → Prop
  | .idle => True
  | .loadedTail _ tail => tail = n % C
  | .loadedHead _ tail next => tail = n % C ∧ next = (n + 1) % C ∧ n + 1 < m + C
  | .wrote item tail next => tail = n % C ∧ next = (n + 1) % C ∧ n + 1 < m + C ∧ buf tail = item

/-- What the consumer knows. -/
def PopOk (C m n : ℕ) (pushes : List (ℕ × T)) : PopPc T → Prop
  | .idle => True
  | .loadedHead head => head = m % C
  | .loadedTail head => head = m % C ∧ m < n
  | .read head out => head = m % C ∧ pushes[m]? = some (m % C, out)

/-- A push does not touch what the consumer knows, -/
theorem PopOk.push {C m n : ℕ} {pushes : List (ℕ × T)} {pc : PopPc T} (h : PopOk C m n pushes pc) (e : ℕ × T) :
    PopOk C m (n + 1) (pushes ++ [e]) pc := by
  cases pc with
  | idle => trivial
  | loadedHead head => exact h
  | loadedTail head => exact ⟨h.1, Nat.lt_add_right 1 h.2⟩
  | read head out =>
    refine ⟨h.1, ?_⟩
    rw [List.getElem?_append_left (List.getElem?_eq_some_iff.mp h.2).1]
    exact h.2

/-- and a pop only adds to the room that the producer knows of. -/
theorem PushOk.pop {C m n : ℕ} {buf : ℕ → T} {pc : PushPc T} (h : PushOk C m n buf pc) : PushOk C (m + 1) n buf pc := by
  cases pc with
  | idle => trivial
  | loadedTail item tail => exact h
  | loadedHead item tail next =>
    obtain ⟨htail, hnext, hroom⟩ := h
    exact ⟨htail, hnext, by omega⟩
  | wrote item tail next =>
    obtain ⟨htail, hnext, hroom, hbuf⟩ := h
    exact ⟨htail, hnext, by omega, hbuf⟩

/-- **The invariant**: positions count what has been pushed and popped, and a value that has been pushed and not
popped is in the slot of its position. -/
structure Ordered (C : ℕ) (s : System T) : Prop where
  /-- `mask_`. -/
  mask : s.ring.mask = C - 1
  /-- Values are popped after they were pushed. -/
  le : s.pops.length ≤ s.pushes.length
  /-- One slot stays free. -/
  lt : s.pushes.length < s.pops.length + C
  /-- `head_`. -/
  head : s.ring.head = s.pops.length % C
  /-- `tail_`. -/
  tail : s.ring.tail = s.pushes.length % C
  /-- Each value was pushed to the slot of its position. -/
  slot : ∀ {j e}, s.pushes[j]? = some e → e.1 = j % C
  /-- What is unread is still there. -/
  buf : ∀ {j e}, s.pops.length ≤ j → s.pushes[j]? = some e → s.ring.buf e.1 = e.2
  /-- The pops are the first pushes. -/
  pops : s.pops = s.pushes.take s.pops.length
  /-- The producer. -/
  producer : PushOk C s.pops.length s.pushes.length s.ring.buf s.producer
  /-- The consumer. -/
  consumer : PopOk C s.pops.length s.pushes.length s.pushes s.consumer

variable {k : ℕ} {s : System T}

theorem ordered_new [Inhabited T] (k : ℕ) : Ordered (2 ^ k) (new (2 ^ k) : System T) where
  mask := rfl
  le := le_rfl
  lt := (Nat.two_pow_pos k).trans_le (Nat.zero_add _).ge
  head := (Nat.zero_mod _).symm
  tail := (Nat.zero_mod _).symm
  slot := by simp [new]
  buf := by simp [new]
  pops := rfl
  producer := trivial
  consumer := trivial

/-- A position that is not taken lies in front of every unread one. -/
theorem Ordered.slot_free {C : ℕ} (h : Ordered C s) (hroom : s.pushes.length + 1 < s.pops.length + C) {j : ℕ} {e : ℕ × T}
    (hj : s.pops.length ≤ j) (he : s.pushes[j]? = some e) : s.pushes.length % C ≠ e.1 := by
  have hlt : j < s.pushes.length := (List.getElem?_eq_some_iff.mp he).1
  rw [h.slot he]
  intro hmod
  have := (mod_eq_mod_iff hlt.le (by omega)).mp hmod
  omega

/-! ### Steps -/

/-- A step to the next slot. -/
theorem Ordered.next_slot (h : Ordered (2 ^ k) s) (n : ℕ) : (n % 2 ^ k + 1) &&& s.ring.mask = (n + 1) % 2 ^ k := by
  rw [h.mask, Nat.and_two_pow_sub_one_eq_mod, Nat.mod_add_mod]

/-- What is found in a list with one element more. -/
theorem getElem?_concat_cases {α : Type} {xs : List α} {x e : α} {j : ℕ} (he : (xs ++ [x])[j]? = some e) :
    xs[j]? = some e ∨ j = xs.length ∧ e = x := by
  rcases Nat.lt_trichotomy j xs.length with hj | hj | hj
  · exact Or.inl (by rwa [List.getElem?_append_left hj] at he)
  · rw [hj, List.getElem?_concat_length] at he
    exact Or.inr ⟨hj, (Option.some.inj he).symm⟩
  · rw [List.getElem?_eq_none (by rw [List.length_append, List.length_singleton]; omega)] at he
    cases he

/-- The ring is full if the next slot is that of `head_`. -/
theorem Ordered.full_iff {C : ℕ} (h : Ordered C s) :
    (s.pushes.length + 1) % C = s.pops.length % C ↔ s.pushes.length + 1 = s.pops.length + C := by
  have hlt := h.lt
  have hle := h.le
  constructor
  · intro he
    by_contra hne
    have := (mod_eq_mod_iff (show s.pops.length ≤ s.pushes.length + 1 by omega) (by omega)).mp he
    omega
  · intro he
    rw [he, Nat.add_mod_right]

/-- **The producer's steps.** `push` returns false only if one slot is free when it loads `head_`. -/
theorem Ordered.producerStep (h : Ordered (2 ^ k) s) (item : T) :
    Ordered (2 ^ k) (s.producerStep item).1 ∧
      ((s.producerStep item).2 = some false → s.pushes.length + 1 = s.pops.length + 2 ^ k) := by
  have hp := h.producer
  have hlt := h.lt
  have hle := h.le
  rw [System.producerStep]
  cases hpc : s.producer with
  | idle => exact ⟨{ h with producer := h.tail }, by simp⟩
  | loadedTail item tail =>
    rw [hpc] at hp
    dsimp only
    rw [show tail = s.pushes.length % 2 ^ k from hp, h.next_slot, h.head]
    split_ifs with hfull
    · exact ⟨{ h with producer := trivial }, fun _ => h.full_iff.mp hfull⟩
    · refine ⟨{ h with producer := ⟨rfl, rfl, ?_⟩ }, by simp⟩
      have := h.full_iff.not.mp hfull
      dsimp only
      omega
  | loadedHead item tail next =>
    rw [hpc] at hp
    obtain ⟨htail, hnext, hroom⟩ := hp
    refine ⟨{ h with buf := ?_, producer := ⟨htail, hnext, hroom, Function.update_self ..⟩ }, by simp⟩
    intro j e hj he
    have hne : e.1 ≠ tail := by
      rw [htail]
      exact (h.slot_free hroom hj he).symm
    exact (Function.update_of_ne hne item s.ring.buf).trans (h.buf hj he)
  | wrote item tail next =>
    rw [hpc] at hp
    obtain ⟨htail, hnext, hroom, hbuf⟩ := hp
    refine ⟨⟨h.mask, ?_, ?_, h.head, ?_, ?_, ?_, ?_, trivial, ?_⟩, by simp⟩
    · simp only [List.length_append]
      omega
    · simp only [List.length_append]
      exact hroom
    · simp only [List.length_append]
      exact hnext
    · intro j e he
      rcases getElem?_concat_cases he with he | ⟨rfl, rfl⟩
      · exact h.slot he
      · exact htail
    · intro j e hj he
      rcases getElem?_concat_cases he with he | ⟨rfl, rfl⟩
      · exact h.buf hj he
      · exact hbuf
    · simp only [List.take_append_of_le_length hle]
      exact h.pops
    · simp only [List.length_append]
      exact h.consumer.push _

/-- **The consumer's steps.** `pop` returns false only if the ring is empty when it loads `tail_`. -/
theorem Ordered.consumerStep (h : Ordered (2 ^ k) s) :
    Ordered (2 ^ k) s.consumerStep.1 ∧ (s.consumerStep.2 = some none → s.pushes.length = s.pops.length) := by
  have hc := h.consumer
  have hlt := h.lt
  have hle := h.le
  rw [System.consumerStep]
  cases hpc : s.consumer with
  | idle => exact ⟨{ h with consumer := h.head }, by simp⟩
  | loadedHead head =>
    rw [hpc] at hc
    dsimp only
    rw [show head = s.pops.length % 2 ^ k from hc, h.tail]
    have hempty := mod_eq_mod_iff hle (by omega : s.pushes.length < s.pops.length + 2 ^ k)
    split_ifs with he
    · exact ⟨{ h with consumer := trivial }, fun _ => hempty.mp he.symm⟩
    · refine ⟨{ h with consumer := ⟨rfl, ?_⟩ }, by simp⟩
      have := hempty.not.mp (Ne.symm he)
      dsimp only
      omega
  | loadedTail head =>
    rw [hpc] at hc
    obtain ⟨hhead, hsome⟩ := hc
    have hget : s.pushes[s.pops.length]? = some s.pushes[s.pops.length] := List.getElem?_eq_getElem hsome
    refine ⟨{ h with consumer := ⟨hhead, ?_⟩ }, by simp⟩
    rw [hget, Option.some.injEq, ← h.slot hget]
    refine Prod.ext rfl ?_
    rw [← h.buf le_rfl hget, h.slot hget, hhead]
  | read head out =>
    rw [hpc] at hc
    obtain ⟨hhead, hget⟩ := hc
    have hsome : s.pops.length < s.pushes.length := (List.getElem?_eq_some_iff.mp hget).1
    refine ⟨⟨h.mask, ?_, ?_, ?_, h.tail, h.slot, ?_, ?_, ?_, trivial⟩, by simp⟩
    · simp only [List.length_append]
      exact hsome
    · simp only [List.length_append]
      omega
    · simp only [hhead, h.next_slot, List.length_append, List.length_singleton]
    · intro j e hj he
      simp only [List.length_append] at hj
      exact h.buf (by omega) he
    · simp only [List.length_append, List.length_singleton, List.take_add_one, hget, ← h.pops, hhead]
      rfl
    · simp only [List.length_append]
      exact h.producer.pop

theorem Ordered.step (h : Ordered (2 ^ k) s) (turn : Turn T) : Ordered (2 ^ k) (s.step turn) := by
  cases turn with
  | producer item => exact (h.producerStep item).1
  | consumer => exact h.consumerStep.1

theorem Ordered.run (h : Ordered (2 ^ k) s) (turns : List (Turn T)) : Ordered (2 ^ k) (s.run turns) := by
  induction turns generalizing s with
  | nil => exact h
  | cons turn turns ih => exact ih (h.step turn)

/-! ### What the ring promises -/

/-- **The producer's next step** pushes the item of its call, if `push` returns true in it, and nothing else. -/
theorem pushes_producerStep (s : System T) (item : T) : (s.producerStep item).1.pops = s.pops ∧
    (s.producerStep item).1.pushes.map (·.2) =
      s.pushes.map (·.2) ++ if (s.producerStep item).2 = some true then s.producer.item.toList else [] := by
  rw [System.producerStep]
  cases s.producer with
  | idle => simp
  | loadedTail item tail =>
    dsimp only
    split_ifs <;> simp_all
  | loadedHead item tail next => simp
  | wrote item tail next => simp [PushPc.item]

/-- **The consumer's next step** pops the value that `pop` returns in it, and nothing else. -/
theorem pops_consumerStep (s : System T) : s.consumerStep.1.pushes = s.pushes ∧
    s.consumerStep.1.pops.map (·.2) = s.pops.map (·.2) ++ s.consumerStep.2.join.toList := by
  rw [System.consumerStep]
  cases s.consumer with
  | idle => simp
  | loadedHead head =>
    dsimp only
    split_ifs <;> simp
  | loadedTail head => simp
  | read head out => simp

/-- **A bounded queue**, at one moment of a run. -/
structure Fifo (capacity : ℕ) (s : System T) : Prop where
  /-- A push that returns true in its next step has pushed its item; any other step pushes nothing. -/
  pushed : ∀ item, (s.producerStep item).1.pops = s.pops ∧
    (s.producerStep item).1.pushes.map (·.2) =
      s.pushes.map (·.2) ++ if (s.producerStep item).2 = some true then s.producer.item.toList else []
  /-- A pop that returns a value in its next step has popped it; any other step pops nothing. -/
  popped : s.consumerStep.1.pushes = s.pushes ∧
    s.consumerStep.1.pops.map (·.2) = s.pops.map (·.2) ++ s.consumerStep.2.join.toList
  /-- What has been popped is what was pushed first. -/
  order : s.pops.map (·.2) <+: s.pushes.map (·.2)
  /-- There are never as many values in the ring as it has slots. -/
  bounded : s.unread.length ≤ capacity - 1
  /-- A slot that is being written exists, holds no unread value, and is not being read. -/
  exclusive : ∀ {item slot next}, s.producer = .loadedHead item slot next →
    slot < capacity ∧ slot ∉ s.unread.map (·.1) ∧ ¬ s.Reading slot
  /-- A push that returns false in its next step finds all values in the ring that it may hold. -/
  full : ∀ item, (s.producerStep item).2 = some false → s.unread.length = capacity - 1
  /-- A pop that returns false in its next step finds no value in the ring. -/
  empty : s.consumerStep.2 = some none → s.unread = []

theorem Ordered.length_unread {C : ℕ} (h : Ordered C s) : s.unread.length + s.pops.length = s.pushes.length := by
  have := h.le
  rw [unread, List.length_drop]
  omega

theorem Ordered.fifo (h : Ordered (2 ^ k) s) : Fifo (2 ^ k) s where
  pushed := s.pushes_producerStep
  popped := s.pops_consumerStep
  order := by
    rw [h.pops, List.map_take]
    exact List.take_prefix _ _
  bounded := by
    have := h.length_unread
    have := h.lt
    omega
  exclusive := by
    intro item slot next hpc
    have hp := h.producer
    rw [hpc] at hp
    obtain ⟨hslot, -, hroom⟩ := hp
    refine ⟨by rw [hslot]; exact Nat.mod_lt _ (Nat.two_pow_pos k), fun hmem => ?_, fun hread => ?_⟩
    · obtain ⟨e, he, rfl⟩ := List.mem_map.mp hmem
      obtain ⟨j, hj⟩ := List.mem_iff_getElem?.mp he
      rw [unread, List.getElem?_drop] at hj
      exact h.slot_free hroom (Nat.le_add_right _ _) hj hslot.symm
    · -- the consumer is at the first unread value
      have hfirst : slot = s.pops.length % 2 ^ k ∧ s.pops.length < s.pushes.length := by
        have hc := h.consumer
        rcases hread with hpc' | ⟨out, hpc'⟩
        · rw [hpc'] at hc
          exact hc
        · rw [hpc'] at hc
          exact ⟨hc.1, (List.getElem?_eq_some_iff.mp hc.2).1⟩
      have := (mod_eq_mod_iff h.le h.lt).mp (hslot.symm.trans hfirst.1)
      omega
  full := fun item hfalse => by
    have := (h.producerStep item).2 hfalse
    have := h.length_unread
    have := Nat.two_pow_pos k
    omega
  empty := fun hfalse => by
    have := h.consumerStep.2 hfalse
    have := h.length_unread
    exact List.eq_nil_of_length_eq_zero (by omega)

/-- **The ring is a bounded queue** at every moment of every run, whatever its steps are and however they are
interleaved: for every capacity that is a power of two. -/
theorem fifo_run [Inhabited T] (k : ℕ) (turns : List (Turn T)) : Fifo (2 ^ k) ((new (2 ^ k) : System T).run turns) :=
  ((ordered_new k).run turns).fifo

/-- A push into the one free slot of a ring of two slots, and the pop of its value, one step in turn. -/
example : ((new 2 : System ℕ).run [.producer 7, .consumer, .producer 0, .producer 0, .producer 0, .consumer, .consumer,
    .consumer]).pops = [(0, 7)] := by decide

end System

end MatchingEngine
