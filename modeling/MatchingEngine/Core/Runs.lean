import MatchingEngine.Core.Refinement

/-!
# Runs of a book

A `Call` on the engine ends in a `CallResult`, or in an overflow. Two kinds of runs are
looked at. In `Returning` every call returns; `shows` is what such a run answers, with what
the observers say after each call. In `Reachable` a call may also throw, and the run goes on
with what the exception left.

A call is `Allowed` if its price is an `int64_t`, as its type says, and if an order that may
come to rest has an id that does not rest already. `Reached` does without the second: it is
about what holds whatever ids are used.
-/

namespace MatchingEngine

open Foundation Function OrderBookV2

/-! ### Calls on the engine -/

/-- How a call ends. -/
structure CallResult where
  /-- The book afterwards. -/
  book : OrderBookV2
  /-- What it returns, or has written to `out_trades` when it throws. -/
  answer : Answer
  /-- The exception thrown. -/
  thrown : Option Exn

namespace OrderBookV2

/-- A call. -/
def call (s : OrderBookV2) : Call → Except Ub CallResult
  | .add req => do
    let r ← s.add req
    .ok ⟨r.book, .trades r.trades, r.thrown⟩
  | .cancel id => do
    let (found, s) ← s.cancel id
    .ok ⟨s, .found found, none⟩
  | .reduce id delta => do
    let (found, s) ← s.reduce id delta
    .ok ⟨s, .found found, none⟩

/-- The observers. -/
def view (s : OrderBookV2) : Except Ub View := do
  let bestBid ← s.bestBid
  let bestAsk ← s.bestAsk
  .ok { hasBid := s.hasBid, hasAsk := s.hasAsk, bestBid, bestAsk, depth := s.depth }

end OrderBookV2

/-- What a call must respect, when `ids` are the ids that rest. -/
def Call.Allowed (ids : List OrderId) : Call → Prop
  | .add req => InI64 req.price ∧ (req.type ≠ .cancel → req.id ∉ ids)
  | .cancel _ | .reduce _ _ => True

instance (ids : List OrderId) : (op : Call) → Decidable (op.Allowed ids)
  | .add req => inferInstanceAs (Decidable (InI64 req.price ∧ (req.type ≠ .cancel → req.id ∉ ids)))
  | .cancel _ | .reduce _ _ => inferInstanceAs (Decidable True)

namespace OrderBookV2

/-- The calls are allowed and return, one after the other, and `P` holds before each. -/
def Returning (P : OrderBookV2 → Prop) (s : OrderBookV2) : List Call → Prop
  | [] => True
  | op :: ops => P s ∧ op.Allowed s.book.ids ∧
    match s.call op with
    | .ok r => r.thrown = none ∧ Returning P r.book ops
    | .error _ => False

/-- Whether a run is one is decided by running it. -/
def decideReturning (P : OrderBookV2 → Prop) [DecidablePred P] (s : OrderBookV2) :
    (ops : List Call) → Decidable (s.Returning P ops)
  | [] => inferInstanceAs (Decidable True)
  | op :: ops =>
    match h : s.call op with
    | .ok r =>
      have := decideReturning P r.book ops
      decidable_of_iff (P s ∧ op.Allowed s.book.ids ∧ r.thrown = none ∧ Returning P r.book ops)
        (by rw [Returning, h])
    | .error _ => .isFalse (by rw [Returning, h]; exact fun hr => hr.2.2)

instance (P : OrderBookV2 → Prop) [DecidablePred P] (s : OrderBookV2) (ops : List Call) :
    Decidable (s.Returning P ops) := decideReturning P s ops

/-- What a sequence of calls shows: the answer of each, and the observers after it. -/
def shows (s : OrderBookV2) : List Call → Except Ub (List (Answer × View))
  | [] => .ok []
  | op :: ops => do
    let r ← s.call op
    let view ← r.book.view
    let rest ← r.book.shows ops
    .ok ((r.answer, view) :: rest)

end OrderBookV2

/-- **The states of a book**, with the calls that led to them. A call may throw. -/
inductive Reachable (capacity : UInt32) (window : ℤ) : List Call → OrderBookV2 → Prop
  /-- A new book. -/
  | new : Reachable capacity window [] (OrderBookV2.new capacity window)
  /-- One call more. -/
  | call {ops s op r} : Reachable capacity window ops s → op.Allowed s.book.ids → s.call op = .ok r →
      Reachable capacity window (ops ++ [op]) r.book

/-- The price of a call is an `int64_t`. -/
def Call.InRange : Call → Prop
  | .add req => InI64 req.price
  | .cancel _ | .reduce _ _ => True

instance : (op : Call) → Decidable op.InRange
  | .add req => inferInstanceAs (Decidable (InI64 req.price))
  | .cancel _ | .reduce _ _ => inferInstanceAs (Decidable True)

/-- **The states of a book**, whatever ids the calls use. A call may throw. -/
inductive Reached (capacity : UInt32) (window : ℤ) : OrderBookV2 → Prop
  /-- A new book. -/
  | new : Reached capacity window (OrderBookV2.new capacity window)
  /-- One call more. -/
  | call {s op r} : Reached capacity window s → op.InRange → s.call op = .ok r → Reached capacity window r.book

/-- **The states of a book** that calls lead to which all meet a condition, each in the state before it. -/
inductive ReachedBy (meets : OrderBookV2 → Call → Prop) (capacity : UInt32) (window : ℤ) : OrderBookV2 → Prop
  /-- A new book. -/
  | new : ReachedBy meets capacity window (OrderBookV2.new capacity window)
  /-- One call more. -/
  | call {s op r} : ReachedBy meets capacity window s → op.InRange → meets s op → s.call op = .ok r →
      ReachedBy meets capacity window r.book

theorem ReachedBy.reached {meets : OrderBookV2 → Call → Prop} {capacity : UInt32} {window : ℤ} {s : OrderBookV2}
    (h : ReachedBy meets capacity window s) : Reached capacity window s := by
  induction h with
  | new => exact .new
  | call _ hop _ hr ih => exact ih.call hop hr

/-- The state after some calls, if they are allowed and none overflows. -/
def OrderBookV2.after (s : OrderBookV2) : List Call → Option OrderBookV2
  | [] => some s
  | op :: ops =>
    if op.Allowed s.book.ids then
      match s.call op with
      | .ok r => r.book.after ops
      | .error _ => none
    else none

/-! ### One call -/

variable {s : OrderBookV2} {c : Layout} {op : Call}

/-- How a call ends, in the layout `c'`. -/
structure Called (s : OrderBookV2) (c : Layout) (op : Call) (r : CallResult) (c' : Layout) : Prop where
  /-- The representation is kept. -/
  settled : Settled r.book c'
  /-- The index still names every order. -/
  tracked : Tracked r.book c'
  /-- A call that returns is that of the reference book, -/
  returned : r.thrown = none → (r.answer, r.book.bookOf c') = (s.bookOf c).callWith Book.coversWrapping op
  /-- and one that throws is an `add` that has done all but let the order rest. -/
  threw : r.thrown ≠ none → ∃ req, op = .add req ∧ r.book.bookOf c' = ((s.bookOf c).beforeRest req).2
  /-- The arena is exhausted only if every cell holds an order. -/
  exhausted : r.thrown = some arenaExhausted → (r.book.bookOf c').orders.length = s.arenaCapacity
  /-- The size of the arena does not change. -/
  capacity : r.book.arenaCapacity = s.arenaCapacity

/-- **One call** keeps the representation. Nothing but a price can overflow. -/
theorem Settled.call (h : Settled s c) (t : Tracked s c) (hop : op.Allowed (s.bookOf c).ids) :
    Ends (· = .overflow) (s.call op) fun r => ∃ c', Called s c op r c' := by
  cases op with
  | add req =>
    obtain ⟨hp, hid⟩ := hop
    refine Ends.bind ((h.add hp).weaken fun u hu => hu.1) ?_
    rintro r ⟨c', hr⟩
    refine ⟨c', hr.settled, hr.tracked t hid, fun hn => ?_, fun hn => ⟨req, rfl, ?_⟩, hr.exhausted, hr.params.1⟩
    · have := hr.returned (fun _ => t) hn
      rw [Book.callWith, ← this]
    · have := hr.threw hn
      rw [← this]
  | cancel id =>
    obtain ⟨found, s', c', hrun, hl, -, hfound⟩ := h.cancel id
    refine Ends.of_exists ⟨⟨s', .found found, none⟩, ?_, c', hl.settled, hl.tracked t, fun _ => ?_,
      fun hn => absurd rfl hn, fun he => absurd he (by simp), hl.frame.capacity⟩
    · rw [OrderBookV2.call, hrun]
      rfl
    · rw [Book.callWith, hl.book t, hfound t]
  | reduce id delta =>
    obtain ⟨found, s', c', hrun, hl, hfound⟩ := h.reduce id delta
    refine Ends.of_exists ⟨⟨s', .found found, none⟩, ?_, c', hl.settled, hl.tracked t, fun _ => ?_,
      fun hn => absurd rfl hn, fun he => absurd he (by simp), hl.frame.capacity⟩
    · rw [OrderBookV2.call, hrun]
      rfl
    · rw [Book.callWith, hl.book t, hfound t]

/-- **One call** keeps the representation, whatever its id. -/
theorem Settled.call_any (h : Settled s c) (hop : op.InRange) :
    Ends (· = .overflow) (s.call op) fun r => ∃ c', Settled r.book c' := by
  cases op with
  | add req =>
    refine Ends.bind ((h.add hop).weaken fun u hu => hu.1) ?_
    rintro r ⟨c', hr⟩
    exact ⟨c', hr.settled⟩
  | cancel id =>
    obtain ⟨found, s', c', hrun, hl, -⟩ := h.cancel id
    refine Ends.of_exists ⟨⟨s', .found found, none⟩, ?_, c', hl.settled⟩
    rw [OrderBookV2.call, hrun]
    rfl
  | reduce id delta =>
    obtain ⟨found, s', c', hrun, hl, -⟩ := h.reduce id delta
    refine Ends.of_exists ⟨⟨s', .found found, none⟩, ?_, c', hl.settled⟩
    rw [OrderBookV2.call, hrun]
    rfl

/-- **The observers** are those of the reference book. -/
theorem Settled.view (h : Settled s c) (t : Tracked s c) : s.view = .ok (s.bookOf c).view := by
  rw [OrderBookV2.view, h.bestBid_eq, h.bestAsk_eq, ok_bind, ok_bind, h.hasBid_eq, h.hasAsk_eq, t.depth h]
  rfl

/-! ### Runs -/

/-- What the first call of a run does. -/
theorem Settled.returning_cons {P : OrderBookV2 → Prop} {ops : List Call} (h : Settled s c) (t : Tracked s c)
    (hrun : s.Returning P (op :: ops)) :
    P s ∧ ∃ r c', s.call op = .ok r ∧ Called s c op r c' ∧ r.thrown = none ∧ r.book.Returning P ops := by
  obtain ⟨hP, hop, hnext⟩ := hrun
  refine ⟨hP, ?_⟩
  rw [h.book_eq] at hop
  have hcall := h.call t hop
  cases hr : s.call op with
  | error u =>
    rw [hr] at hnext
    exact hnext.elim
  | ok r =>
    rw [hr] at hnext hcall
    obtain ⟨c', hcalled⟩ := hcall
    exact ⟨r, c', rfl, hcalled, hnext⟩

/-- **A run in which every call returns** shows what the reference book shows whose
fill-or-kill test sums 64-bit words. -/
theorem Settled.shows {P : OrderBookV2 → Prop} {ops : List Call} (h : Settled s c) (t : Tracked s c)
    (hrun : s.Returning P ops) : s.shows ops = .ok ((s.bookOf c).showsWith Book.coversWrapping ops) := by
  induction ops generalizing s c with
  | nil => rfl
  | cons op ops ih =>
    obtain ⟨-, r, c', hcall, hr, hthrown, hrest⟩ := h.returning_cons t hrun
    have hret := hr.returned hthrown
    rw [OrderBookV2.shows, hcall, ok_bind, hr.settled.view hr.tracked, ok_bind, ih hr.settled hr.tracked hrest,
      ok_bind, Book.showsWith, ← hret]

/-- **Every state of a book** represents the orders that walking its lists finds. -/
theorem Reachable.sound {capacity : UInt32} {window : ℤ} {ops : List Call} (h : Reachable capacity window ops s) :
    Settled s s.levelNodes ∧ Tracked s s.levelNodes := by
  induction h with
  | new =>
    have hs := settled_new capacity window
    rw [hs.layout]
    exact ⟨hs, tracked_new capacity window⟩
  | call hs hop hr ih =>
    obtain ⟨c', hc⟩ := (ih.1.call ih.2 hop).elim hr
    rw [hc.settled.layout]
    exact ⟨hc.settled, hc.tracked⟩

/-- **Every state of a book** represents what walking its lists finds, whatever ids the calls used. -/
theorem Reached.settled {capacity : UInt32} {window : ℤ} (h : Reached capacity window s) : Settled s s.levelNodes := by
  induction h with
  | new =>
    have hs := settled_new capacity window
    rw [hs.layout]
    exact hs
  | call hs hop hr ih =>
    obtain ⟨c', hc⟩ := (ih.call_any hop).elim hr
    rw [hc.layout]
    exact hc

/-- Running the calls finds a state that they lead to. -/
theorem Reachable.after {capacity : UInt32} {window : ℤ} {ops ops' : List Call} {s' : OrderBookV2}
    (h : Reachable capacity window ops s) (hrun : s.after ops' = some s') : Reachable capacity window (ops ++ ops') s' := by
  induction ops' generalizing s ops with
  | nil =>
    rw [List.append_nil, ← Option.some.inj hrun]
    exact h
  | cons op ops' ih =>
    rw [OrderBookV2.after] at hrun
    split_ifs at hrun with hop
    cases hr : s.call op with
    | error u =>
      rw [hr] at hrun
      cases hrun
    | ok r =>
      rw [hr] at hrun
      have := ih (h.call hop hr) hrun
      rwa [List.append_assoc] at this

end MatchingEngine
