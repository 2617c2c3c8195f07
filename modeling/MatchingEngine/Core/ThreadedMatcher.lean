import MatchingEngine.Core.Pipeline
import MatchingEngine.Core.Workload

/-!
# The threaded matcher

`cpp/tests/test_threaded.cpp`, which checks ADR-1: a producer thread, a ring, a matching thread
that alone touches the book, a second ring, and a consumer must come to exactly what calling the
book directly comes to. The test runs one schedule of one workload. Here the schedule is any
sequence of turns (`threaded`), where a turn is one access to a word of a ring or to a flag.

At every moment the consumer has got a first part of the trades of the direct calls, in order, and
all of them if it has left its loop (`threaded_safe`). If every thread has turns again and again, it
leaves, and the program prints `MATCH` (`threaded_match`).
-/

namespace MatchingEngine.Workload

open Foundation

/-! ### The program -/

/-- `struct WireOp`. -/
structure WireOp where
  /-- `is_cancel`. -/
  isCancel : Bool
  /-- `req`. -/
  req : OrderRequest
  deriving DecidableEq, Repr

/-- `WireOp w;` -/
instance : Inhabited WireOp := ⟨⟨false, ⟨0, .buy, .limit, 0, 0⟩⟩⟩

/-- `Trade t;` -/
instance : Inhabited Trade := ⟨⟨0, 0, 0, 0⟩⟩

/-- The types of the orders: all that are no limit orders are market orders. -/
def wireType (kind : OpKind) : OrderType := if kind = .addLimit then .limit else .market

/-- What the producer makes of an operation. -/
def toWire (op : Op) : WireOp :=
  if op.kind = .cancel then ⟨true, ⟨op.id, .buy, .cancel, 0, 0⟩⟩ else ⟨false, op.toRequest wireType⟩

/-- What the matching thread does with an operation: the book afterwards, and the trades to push. There is no
result if the call throws, or does what the language leaves undefined. -/
def handle (book : OrderBookV2) (w : WireOp) : Option (OrderBookV2 × List Trade) :=
  if w.isCancel then do
    let (_, book) ← (book.cancel w.req.id).toOption
    some (book, [])
  else do
    let r ← (book.add w.req).toOption
    if r.thrown = none then some (r.book, r.trades) else none

/-- The three threads, and the two rings of `2 ^ k` cells, after each turn of a schedule. -/
def threaded (k : ℕ) (book : OrderBookV2) (ws : List WireOp) (turns : ℕ → Pipeline.Thread) :
    ℕ → Pipeline.State WireOp Trade OrderBookV2 :=
  statesOf (Pipeline.step handle) (.new (2 ^ k) (2 ^ k) book ws) turns

/-- `threaded_trades`, `threaded_qty` and `threaded_cs`, which the consumer keeps as it pops. -/
def threadedTotals (s : Pipeline.State WireOp Trade OrderBookV2) : Totals := s.output.got.foldl Totals.add {}

/-- The loop of the reference, with direct calls: `ref_trades`, `ref_qty` and `ref_cs`. -/
def reference : OrderBookV2 → Totals → List Op → Option Totals
  | _, t, [] => some t
  | book, t, op :: ops =>
    if op.kind = .cancel then do
      let (_, book) ← (book.cancel op.id).toOption
      reference book t ops
    else do
      let r ← (book.add (op.toRequest wireType)).toOption
      if r.thrown = none then reference r.book (r.trades.foldl Totals.add t) ops else none

/-! ### Direct calls -/

variable {s s' : OrderBookV2} {t : Totals} {op : Op} {ops : List Op} {trades : List Trade}

/-- A cancel. -/
theorem handle_cancel (hkind : op.kind = .cancel) :
    handle s (toWire op) = (s.cancel op.id).toOption.bind fun x => some (x.2, []) := by
  rw [toWire, if_pos hkind]
  rfl

/-- An order. -/
theorem handle_add (hkind : op.kind ≠ .cancel) :
    handle s (toWire op) =
      (s.add (op.toRequest wireType)).toOption.bind fun r => if r.thrown = none then some (r.book, r.trades) else none := by
  rw [toWire, if_neg hkind]
  rfl

/-- **The reference is one loop of the matching thread.** -/
theorem reference_eq (h : Pipeline.runAll handle s (ops.map toWire) = some (s', trades)) (t : Totals) :
    reference s t ops = some (trades.foldl Totals.add t) := by
  induction ops generalizing s trades t with
  | nil =>
    obtain ⟨-, rfl⟩ := Prod.mk.inj (Option.some.inj h)
    rfl
  | cons op ops ih =>
    obtain ⟨⟨s₁, ts⟩, hfirst, h⟩ := Option.bind_eq_some_iff.mp h
    obtain ⟨⟨s₂, us⟩, hrest, h⟩ := Option.bind_eq_some_iff.mp h
    obtain ⟨rfl, rfl⟩ := Prod.mk.inj (Option.some.inj h)
    rw [reference, List.foldl_append]
    split_ifs with hkind
    · rw [handle_cancel hkind] at hfirst
      obtain ⟨⟨found, s₃⟩, hcancel, hfirst⟩ := Option.bind_eq_some_iff.mp hfirst
      obtain ⟨rfl, rfl⟩ := Prod.mk.inj (Option.some.inj hfirst)
      rw [hcancel]
      exact ih hrest t
    · rw [handle_add hkind] at hfirst
      obtain ⟨r, hadd, hfirst⟩ := Option.bind_eq_some_iff.mp hfirst
      split_ifs at hfirst with hthrown
      obtain ⟨rfl, rfl⟩ := Prod.mk.inj (Option.some.inj hfirst)
      rw [hadd]
      exact (if_pos hthrown).trans (ih hrest _)

/-- **Calls that return** are handled. -/
theorem runAll_of_returning {P : OrderBookV2 → Prop} (h : s.Returning P (ops.map (Op.toCall wireType))) :
    ∃ s' trades, Pipeline.runAll handle s (ops.map toWire) = some (s', trades) := by
  induction ops generalizing s with
  | nil => exact ⟨s, [], rfl⟩
  | cons op ops ih =>
    obtain ⟨-, -, hnext⟩ := h
    have hfirst : ∃ s₁ ts, handle s (toWire op) = some (s₁, ts) ∧ s₁.Returning P (ops.map (Op.toCall wireType)) := by
      cases hr : s.call (op.toCall wireType) with
      | error u =>
        rw [hr] at hnext
        exact hnext.elim
      | ok r =>
        rw [hr] at hnext
        obtain ⟨hthrown, hrest⟩ := hnext
        rw [Op.toCall] at hr
        split_ifs at hr with hkind
        · obtain ⟨⟨found, s₁⟩, hcancel, hr⟩ := bind_eq_ok.mp hr
          cases hr
          exact ⟨s₁, [], by rw [handle_cancel hkind, hcancel]; rfl, hrest⟩
        · obtain ⟨a, hadd, hr⟩ := bind_eq_ok.mp hr
          cases hr
          refine ⟨a.book, a.trades, ?_, hrest⟩
          rw [handle_add hkind, hadd]
          exact if_pos hthrown
    obtain ⟨s₁, ts, hhandle, hrest⟩ := hfirst
    obtain ⟨s', us, hrun⟩ := ih hrest
    refine ⟨s', ts ++ us, ?_⟩
    simp [Pipeline.runAll, hhandle, hrun]

/-! ### Every schedule -/

/-- What holds of the three threads after every turn. -/
theorem threaded_inv (k : ℕ) (book : OrderBookV2) (ws : List WireOp) (turns : ℕ → Pipeline.Thread) (n : ℕ) :
    Pipeline.Inv handle k k book ws (threaded k book ws turns n) :=
  statesOf_inv (fun _ turn h => h.step turn) (Pipeline.inv_new handle k k book ws) n

/-- **The threads do what direct calls do**, whatever the schedule: the matching thread has made a first part of the calls,
the consumer has got a first part of their trades, and, if it has left its loop, all trades of all calls. -/
theorem threaded_safe (k : ℕ) (book : OrderBookV2) (ws : List WireOp) (turns : ℕ → Pipeline.Thread) (n : ℕ) :
    ∃ past trades, past <+: ws ∧ Pipeline.runAll handle book past = some ((threaded k book ws turns n).state, trades) ∧
      (threaded k book ws turns n).output.got <+: trades ∧
      ((threaded k book ws turns n).output.reader = .left → past = ws ∧ (threaded k book ws turns n).output.got = trades) := by
  have hinv := threaded_inv k book ws turns n
  by_cases hleft : (threaded k book ws turns n).output.reader = .left
  · exact ⟨ws, _, List.prefix_rfl, hinv.finished hleft, List.prefix_rfl, fun _ => ⟨rfl, rfl⟩⟩
  · obtain ⟨past, hpast, hrun⟩ := hinv.handled
    refine ⟨past, _, ?_, hrun, ?_, fun hl => absurd hl hleft⟩
    · exact (hpast ▸ List.prefix_append past _ : past <+: _).trans hinv.popped_prefix
    · exact hinv.output.got_prefix.trans (List.prefix_append _ _)

/-- **The program prints `MATCH`.** -/
theorem threaded_match (ds : List (Draw 50)) (hds : ds.length ≤ 1048576) (turns : ℕ → Pipeline.Thread)
    (hfair : FairSchedule turns) :
    ∃ totals, reference (.new 1048576 20000) {} (generateOps ds) = some totals ∧
      (∃ n, (threaded 16 (.new 1048576 20000) ((generateOps ds).map toWire) turns n).output.reader = .left) ∧
      ∀ n, (threaded 16 (.new 1048576 20000) ((generateOps ds).map toWire) turns n).output.reader = .left →
        threadedTotals (threaded 16 (.new 1048576 20000) ((generateOps ds).map toWire) turns n) = totals := by
  have hwf : WellFormed 9950 10050 (generateOps ds) := generateOps_wellFormed (by omega)
  have hret : (OrderBookV2.new 1048576 20000).Returning _ ((generateOps ds).map (Op.toCall wireType)) := hwf.returning
    ⟨by decide, by decide, by decide, by decide⟩ (fun kind => by cases kind <;> decide)
    (by rw [generateOps, length_loop]; exact hds)
  obtain ⟨s', trades, hrun⟩ := runAll_of_returning hret
  have hinv := threaded_inv 16 (.new 1048576 20000) ((generateOps ds).map toWire) turns
  refine ⟨trades.foldl Totals.add {}, reference_eq hrun {}, ?_, fun n hleft => ?_⟩
  · exact (Pipeline.helpful hrun (by decide) (by decide)).reaches (Pipeline.inv_new handle 16 16 _ _) hfair
  · obtain ⟨-, hgot⟩ := Prod.mk.inj (Option.some.inj (((hinv n).finished hleft).symm.trans hrun))
    rw [threadedTotals, hgot]

/-- The threads take turns, one after the other. -/
def roundRobin (n : ℕ) : Pipeline.Thread :=
  match n % 3 with
  | 0 => .producer
  | 1 => .worker
  | _ => .consumer

theorem fair_roundRobin : FairSchedule roundRobin := by
  intro turn
  rw [Filter.frequently_atTop]
  intro n
  cases turn with
  | producer => exact ⟨3 * n, by omega, by simp [roundRobin]⟩
  | worker => exact ⟨3 * n + 1, by omega, by simp [roundRobin]⟩
  | consumer => exact ⟨3 * n + 2, by omega, by simp [roundRobin]⟩

/-- Two orders that trade, and turns one after the other. -/
theorem threaded_match_two :
    let ds : List (Draw 50) := [⟨3, 1, ⟨7, by decide⟩, ⟨5, by decide⟩, fun _ => 0⟩, ⟨9, 0, ⟨2, by decide⟩, ⟨3, by decide⟩, fun _ => 0⟩]
    ∃ totals, reference (.new 1048576 20000) {} (generateOps ds) = some totals ∧
      (∃ n, (threaded 16 (.new 1048576 20000) ((generateOps ds).map toWire) roundRobin n).output.reader = .left) ∧
      ∀ n, (threaded 16 (.new 1048576 20000) ((generateOps ds).map toWire) roundRobin n).output.reader = .left →
        threadedTotals (threaded 16 (.new 1048576 20000) ((generateOps ds).map toWire) roundRobin n) = totals :=
  threaded_match _ (by decide) _ fair_roundRobin

end MatchingEngine.Workload
