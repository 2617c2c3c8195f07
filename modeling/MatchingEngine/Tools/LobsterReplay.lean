import MatchingEngine.Core.PriceBand
import MatchingEngine.Tools.LobsterFile

/-!
# Replaying a LOBSTER file

`main` of `cpp/tools/replay_lobster.cpp` and of `cpp/tools/replay_lobster_batched.cpp`: the events
of a trading day are applied to a book, and after each of them the program looks whether the book
is crossed. Both programs do the same to the book (`apply`); one of them prints its counters at the
end, the other one prints a row for every batch of events.

No file makes them find a crossed book, whatever its numbers and its ids are (`replay_uncrossed`). The
rows of the second program are what the first one counts up to there, for every size of the batches
(`batched_rows`). Where the orders of a day have ids of their own and prices that fit on the axis, both
programs reach their ends, and print what the reference book makes of the day (`replay_reference`).
-/

namespace MatchingEngine.Lobster

open Foundation OrderBookV2

/-! ### The book -/

/-- How a program ends that does not reach its end. -/
inductive Stop where
  /-- It does what the language leaves undefined. -/
  | ub (u : Ub)
  /-- An exception that nothing catches. -/
  | thrown (e : Exn)

/-- The book is the only one that can throw. -/
def defined {α : Type} (x : Except Ub α) : Except Stop α :=
  match x with
  | .ok a => .ok a
  | .error u => .error (.ub u)

/-- What an event does to the book. -/
structure Applied where
  /-- `book`. -/
  book : OrderBookV2
  /-- What `add` returns. -/
  trades : List Trade := []
  /-- A `reduce` that is counted did not find its order. -/
  reduceMissed : Bool := false
  /-- A `cancel` did not find its order. -/
  cancelMissed : Bool := false

/-- `side`. -/
def LobsterEvent.side (ev : LobsterEvent) : Side := if ev.direction = 1 then .buy else .sell

/-- `req`. -/
def LobsterEvent.request (ev : LobsterEvent) : OrderRequest := ⟨ev.orderId, ev.side, .limit, ev.price, ev.size⟩

/-- The `switch`: a new order, a partial cancel, a full delete, and a visible execution. -/
def apply (book : OrderBookV2) (ev : LobsterEvent) : Except Stop Applied :=
  if ev.type = 1 then do
    let r ← defined (book.add ev.request)
    match r.thrown with
    | none => .ok { book := r.book, trades := r.trades }
    | some e => .error (.thrown e)
  else if ev.type = 2 then do
    let (found, book) ← defined (book.reduce ev.orderId ev.size)
    .ok { book, reduceMissed := !found }
  else if ev.type = 3 then do
    let (found, book) ← defined (book.cancel ev.orderId)
    .ok { book, cancelMissed := !found }
  else if ev.type = 4 then do
    let (_, book) ← defined (book.reduce ev.orderId ev.size)
    .ok { book }
  else .ok { book }

/-- `book.has_bid() && book.has_ask() && book.best_bid() >= book.best_ask()`. -/
def crossed (book : OrderBookV2) : Except Ub Bool :=
  if book.hasBid && book.hasAsk then do
    let bestBid ← book.bestBid
    let bestAsk ← book.bestAsk
    .ok (bestAsk ≤ bestBid)
  else .ok false

/-! ### What both programs count -/

/-- The counters that both programs have. -/
structure Totals where
  /-- `lines`, `cum_events`. -/
  events : ℕ := 0
  /-- `engine_trades`, `cum_trades`. -/
  trades : ℕ := 0
  /-- `engine_trade_qty`, `cum_trade_qty`. -/
  tradeQty : UInt64 := 0
  /-- `invariant_violations`, `cum_invariant_violations`. -/
  violations : ℕ := 0
  /-- `reduce_misses`, `cum_reduce_misses`. -/
  reduceMisses : ℕ := 0
  /-- `cancel_misses`, `cum_cancel_misses`. -/
  cancelMisses : ℕ := 0
  deriving DecidableEq

/-- One event more. -/
def Totals.note (t : Totals) (a : Applied) (crossed : Bool) : Totals where
  events := t.events + 1
  trades := t.trades + a.trades.length
  tradeQty := a.trades.foldl (fun qty trade => qty + trade.qty) t.tradeQty
  violations := t.violations + crossed.toNat
  reduceMisses := t.reduceMisses + a.reduceMissed.toNat
  cancelMisses := t.cancelMisses + a.cancelMissed.toNat

/-- The book, and what has been counted. -/
structure State where
  /-- `book`. -/
  book : OrderBookV2
  /-- The counters. -/
  totals : Totals

/-- One event. -/
def State.event (s : State) (ev : LobsterEvent) : Except Stop State := do
  let a ← apply s.book ev
  let crossed ← defined (crossed a.book)
  .ok ⟨a.book, s.totals.note a crossed⟩

/-- `OrderBookV2 book(1u << 21, 150000);` -/
def State.new : State := ⟨.new 2097152 150000, {}⟩

/-! ### The plain program -/

/-- The counters of the plain program. -/
structure Replay where
  /-- The book, and the counters that both programs have. -/
  state : State := .new
  /-- `type_counts`. -/
  typeCounts : ℤ → ℕ := fun _ => 0
  /-- `parse_failures`. -/
  parseFailures : ℕ := 0
  /-- `lobster_visible_exec_qty`. -/
  visibleExecQty : UInt64 := 0
  /-- `lobster_hidden_exec_qty`. -/
  hiddenExecQty : UInt64 := 0

/-- One event of the plain program. -/
def Replay.event (r : Replay) (ev : LobsterEvent) : Except Stop Replay := do
  let state ← r.state.event ev
  .ok
    { r with
      state
      typeCounts := if 1 ≤ ev.type ∧ ev.type ≤ 7 then Function.update r.typeCounts ev.type (r.typeCounts ev.type + 1)
        else r.typeCounts
      visibleExecQty := if ev.type = 4 then r.visibleExecQty + ev.size else r.visibleExecQty
      hiddenExecQty := if ev.type = 5 then r.hiddenExecQty + ev.size else r.hiddenExecQty }

/-- The loop over the lines. -/
def Replay.lines (r : Replay) : List (List Char) → Except Stop Replay
  | [] => .ok r
  | line :: rest =>
    if line.isEmpty then r.lines rest
    else do
      match ← defined (parseLine line) with
      | none => Replay.lines { r with parseFailures := r.parseFailures + 1 } rest
      | some ev => do
        let r ← r.event ev
        r.lines rest

/-- `main`: what has been counted at the end. -/
def replay (file : List Char) : Except Stop Replay := Replay.lines {} (linesOf file)

/-- What `main` returns. -/
def Replay.exitCode (r : Replay) : ℕ := if r.state.totals.violations = 0 then 0 else 1

/-! ### The program with batches -/

/-- A row of the output, but for the time. -/
structure Row where
  /-- `batch_idx`. -/
  batchIdx : ℕ
  /-- `batch_events`. -/
  batchEvents : ℕ
  /-- What has been counted up to here. -/
  totals : Totals
  /-- `best_bid`. -/
  bestBid : ℤ
  /-- `best_ask`. -/
  bestAsk : ℤ
  /-- `depth`. -/
  depth : ℕ
  deriving DecidableEq

/-- What the program with batches keeps. -/
structure Batched where
  /-- The book, and the counters that both programs have. -/
  state : State := .new
  /-- `batch_idx`. -/
  batchIdx : ℕ := 0
  /-- `batch_events`. -/
  batchEvents : ℕ := 0
  /-- What has been printed. -/
  rows : List Row := []

/-- The arguments of `std::printf`. -/
def State.row (s : State) (batchIdx batchEvents : ℕ) : Except Ub Row := do
  let bestBid ← s.book.bestBid
  let bestAsk ← s.book.bestAsk
  .ok ⟨batchIdx, batchEvents, s.totals, bestBid, bestAsk, s.book.depth⟩

/-- `flush_batch`. -/
def Batched.flush (b : Batched) : Except Ub Batched := do
  let row ← b.state.row b.batchIdx b.batchEvents
  .ok { b with batchIdx := b.batchIdx + 1, batchEvents := 0, rows := b.rows ++ [row] }

/-- One event of the program with batches. -/
def Batched.event (b : Batched) (size : UInt64) (ev : LobsterEvent) : Except Stop Batched := do
  let state ← b.state.event ev
  let b := { b with state, batchEvents := b.batchEvents + 1 }
  if size.toNat ≤ b.batchEvents then defined b.flush else .ok b

/-- The loop over the lines. -/
def Batched.lines (b : Batched) (size : UInt64) : List (List Char) → Except Stop Batched
  | [] => .ok b
  | line :: rest =>
    if line.isEmpty then b.lines size rest
    else do
      match ← defined (parseLine line) with
      | none => b.lines size rest
      | some ev => do
        let b ← b.event size ev
        b.lines size rest

/-- `main`: the rows. -/
def replayBatched (size : UInt64) (file : List Char) : Except Stop (List Row) := do
  let b ← Batched.lines {} size (linesOf file)
  let b ← if 0 < b.batchEvents then defined b.flush else .ok b
  .ok b.rows

/-! ### Runs of events -/

/-- Event after event. -/
def State.run (s : State) : List LobsterEvent → Except Stop State
  | [] => .ok s
  | ev :: evs => do
    let s ← s.event ev
    s.run evs

/-- Event after event of the program with batches. -/
def Batched.run (b : Batched) (size : UInt64) : List LobsterEvent → Except Stop Batched
  | [] => .ok b
  | ev :: evs => do
    let b ← b.event size ev
    b.run size evs

/-! ### What an event does to the book -/

variable {book : OrderBookV2} {c : Layout} {ev : LobsterEvent} {evs : List LobsterEvent} {s s' : State}

/-- The call that an event makes. -/
def LobsterEvent.call (ev : LobsterEvent) : Option Call :=
  if ev.type = 1 then some (.add ev.request)
  else if ev.type = 2 ∨ ev.type = 4 then some (.reduce ev.orderId ev.size)
  else if ev.type = 3 then some (.cancel ev.orderId)
  else none

/-- What becomes of a call. -/
def LobsterEvent.finish (ev : LobsterEvent) (r : CallResult) : Except Stop Applied :=
  match r.thrown with
  | some e => .error (.thrown e)
  | none =>
    match r.answer with
    | .trades ts => .ok { book := r.book, trades := ts }
    | .found found =>
      .ok { book := r.book, reduceMissed := ev.type = 2 && !found, cancelMissed := ev.type = 3 && !found }

/-- **An event makes one call**, or none. -/
theorem apply_eq (book : OrderBookV2) (ev : LobsterEvent) :
    apply book ev =
      match ev.call with
      | none => .ok { book }
      | some op => defined (book.call op) >>= ev.finish := by
  rw [apply, LobsterEvent.call]
  by_cases hadd : ev.type = 1
  · rw [if_pos hadd, if_pos hadd]
    dsimp only [OrderBookV2.call]
    cases book.add ev.request with
    | error u => rfl
    | ok r => cases hr : r.thrown <;> simp [defined, LobsterEvent.finish, hr]
  rw [if_neg hadd, if_neg hadd]
  by_cases hreduce : ev.type = 2
  · rw [if_pos hreduce, if_pos (.inl hreduce)]
    dsimp only [OrderBookV2.call]
    cases book.reduce ev.orderId ev.size with
    | error u => rfl
    | ok r => simp [defined, LobsterEvent.finish, hreduce]
  rw [if_neg hreduce]
  by_cases hcancel : ev.type = 3
  · have hnot : ¬ (ev.type = 2 ∨ ev.type = 4) := by omega
    rw [if_pos hcancel, if_neg hnot, if_pos hcancel]
    dsimp only [OrderBookV2.call]
    cases book.cancel ev.orderId with
    | error u => rfl
    | ok r => simp [defined, LobsterEvent.finish, hcancel]
  rw [if_neg hcancel]
  by_cases hvisible : ev.type = 4
  · rw [if_pos hvisible, if_pos (.inr hvisible)]
    dsimp only [OrderBookV2.call]
    cases book.reduce ev.orderId ev.size with
    | error u => rfl
    | ok r => simp [defined, LobsterEvent.finish, hvisible]
  · rw [if_neg hvisible, if_neg (not_or.mpr ⟨hreduce, hvisible⟩), if_neg hcancel]

theorem LobsterEvent.finish_book {r : CallResult} {a : Applied} (h : ev.finish r = .ok a) : a.book = r.book := by
  rw [LobsterEvent.finish] at h
  split at h
  · cases h
  · split at h
    · exact Except.ok.inj h ▸ rfl
    · exact Except.ok.inj h ▸ rfl

theorem LobsterEvent.call_inRange {op : Call} (h : ev.call = some op) : op.InRange := by
  rw [LobsterEvent.call] at h
  split_ifs at h
  · obtain rfl := Option.some.inj h
    exact ev.inI64
  · obtain rfl := Option.some.inj h
    trivial
  · obtain rfl := Option.some.inj h
    trivial

theorem defined_eq_ok {α : Type} {x : Except Ub α} {a : α} : defined x = .ok a ↔ x = .ok a := by
  cases x <;> simp [defined]

/-- **The book stays settled**, whatever the event is. -/
theorem apply_settled (h : Settled book c) {a : Applied} (ha : apply book ev = .ok a) : ∃ c', Settled a.book c' := by
  rw [apply_eq] at ha
  split at ha
  · exact Except.ok.inj ha ▸ ⟨c, h⟩
  next op hop =>
    obtain ⟨r, hr, hfinish⟩ := bind_eq_ok.mp ha
    rw [LobsterEvent.finish_book hfinish]
    exact (h.call_any (LobsterEvent.call_inRange hop)).elim (defined_eq_ok.mp hr)

/-- **A settled book is not crossed.** -/
theorem crossed_eq_false (h : Settled book c) : crossed book = .ok false := by
  rw [crossed]
  split_ifs with hboth
  · obtain ⟨hbid, hask⟩ := Bool.and_eq_true_iff.mp hboth
    have hbuy := h.best_buy
    have hsell := h.best_sell
    rw [if_pos (of_decide_eq_true hbid)] at hbuy
    rw [if_pos (of_decide_eq_true hask)] at hsell
    have := h.cursors.uncrossed (of_decide_eq_true hask)
    rw [h.bestBid_eq, h.bestAsk_eq, hbuy, hsell, ok_bind, ok_bind]
    refine congrArg Except.ok (decide_eq_false ?_)
    simp only [Option.getD_some]
    omega
  · rfl

/-! ### No file makes them find a crossed book -/

/-- The book is settled, and it has not been found crossed. -/
structure State.Sound (s : State) : Prop where
  /-- The representation. -/
  settled : ∃ c, Settled s.book c
  /-- `invariant_violations`. -/
  violations : s.totals.violations = 0

theorem State.sound_new : State.new.Sound := ⟨⟨fun _ => [], settled_new _ _⟩, rfl⟩

/-- An event keeps it so. -/
theorem State.Sound.event (h : s.Sound) (hev : s.event ev = .ok s') : s'.Sound := by
  obtain ⟨c, hc⟩ := h.settled
  obtain ⟨a, ha, hev⟩ := bind_eq_ok.mp hev
  obtain ⟨c', hc'⟩ := apply_settled hc ha
  rw [crossed_eq_false hc'] at hev
  obtain rfl := Except.ok.inj hev
  exact ⟨⟨c', hc'⟩, h.violations⟩

theorem State.run_cons : s.run (ev :: evs) = .ok s' ↔ ∃ u, s.event ev = .ok u ∧ u.run evs = .ok s' := bind_eq_ok

/-- **A run of events never finds the book crossed.** -/
theorem State.Sound.run (h : s.Sound) (hrun : s.run evs = .ok s') : s'.Sound := by
  induction evs generalizing s with
  | nil => exact Except.ok.inj hrun ▸ h
  | cons ev evs ih =>
    obtain ⟨u, hev, hrest⟩ := State.run_cons.mp hrun
    exact ih (h.event hev) hrest

/-! ### The loops over the lines -/

/-- **The plain program** applies the events of its lines, one after the other. -/
theorem Replay.lines_state {r : Replay} {ls : List (List Char)} :
    (∃ r', r.lines ls = .ok r' ∧ r'.state = s') ↔ ∃ evs, eventsOf ls = .ok evs ∧ r.state.run evs = .ok s' := by
  induction ls generalizing r with
  | nil => simp [Replay.lines, eventsOf, State.run]
  | cons line rest ih =>
    rw [Replay.lines, eventsOf]
    split_ifs with hempty
    · exact ih
    cases hline : parseLine line with
    | error u => simp [defined]
    | ok found =>
      cases found with
      | none => exact ih
      | some ev =>
        simp only [defined, ok_bind, bind_eq_ok, Except.ok.injEq]
        constructor
        · rintro ⟨r', ⟨next, hnext, hlines⟩, hstate⟩
          obtain ⟨evs, hevs, hrun⟩ := ih.mp ⟨r', hlines, hstate⟩
          obtain ⟨s, hs, hnext⟩ := bind_eq_ok.mp hnext
          obtain rfl := Except.ok.inj hnext
          exact ⟨ev :: evs, ⟨evs, hevs, rfl⟩, State.run_cons.mpr ⟨s, hs, hrun⟩⟩
        · rintro ⟨_, ⟨evs, hevs, rfl⟩, hrun⟩
          obtain ⟨s, hs, hrun⟩ := State.run_cons.mp hrun
          obtain ⟨next, hnext, hstate⟩ : ∃ next, r.event ev = .ok next ∧ next.state = s := by
            rw [Replay.event, hs, ok_bind]
            exact ⟨_, rfl, rfl⟩
          obtain ⟨r', hlines, hr'⟩ := ih.mpr ⟨evs, hevs, hstate ▸ hrun⟩
          exact ⟨r', ⟨next, hnext, hlines⟩, hr'⟩

/-- **The program with batches** does so too. -/
theorem Batched.lines_eq_ok {b b' : Batched} {size : UInt64} {ls : List (List Char)} :
    b.lines size ls = .ok b' ↔ ∃ evs, eventsOf ls = .ok evs ∧ b.run size evs = .ok b' := by
  induction ls generalizing b with
  | nil => simp [Batched.lines, eventsOf, Batched.run]
  | cons line rest ih =>
    rw [Batched.lines, eventsOf]
    split_ifs with hempty
    · exact ih
    cases hline : parseLine line with
    | error u => simp [defined]
    | ok found =>
      cases found with
      | none => exact ih
      | some ev =>
        simp only [defined, ok_bind, bind_eq_ok, Except.ok.injEq]
        constructor
        · rintro ⟨next, hnext, hlines⟩
          obtain ⟨evs, hevs, hrun⟩ := ih.mp hlines
          exact ⟨ev :: evs, ⟨evs, hevs, rfl⟩, bind_eq_ok.mpr ⟨next, hnext, hrun⟩⟩
        · rintro ⟨_, ⟨evs, hevs, rfl⟩, hrun⟩
          obtain ⟨next, hnext, hrun⟩ := bind_eq_ok.mp hrun
          exact ⟨next, hnext, ih.mpr ⟨evs, hevs, hrun⟩⟩

/-! ### Batches -/

theorem State.run_append {evs' : List LobsterEvent} (hrun : s.run evs = .ok s') : s.run (evs ++ evs') = s'.run evs' := by
  induction evs generalizing s with
  | nil => exact Except.ok.inj hrun ▸ rfl
  | cons ev evs ih =>
    obtain ⟨u, hev, hrest⟩ := State.run_cons.mp hrun
    rw [List.cons_append, State.run, hev, ok_bind, ih hrest]

/-- **What can be printed** of a settled book. -/
theorem State.Sound.row (h : s.Sound) (batchIdx batchEvents : ℕ) : ∃ row, s.row batchIdx batchEvents = .ok row := by
  obtain ⟨c, hc⟩ := h.settled
  rw [State.row, hc.bestBid_eq, hc.bestAsk_eq]
  exact ⟨_, rfl⟩

/-- The first `n` rows that the events `evs` make, `size` of them a row: each has the state that there is after the
last of its events. -/
structure Rows (size : ℕ) (evs : List LobsterEvent) (n : ℕ) (rows : List Row) : Prop where
  /-- There are `n` of them. -/
  length : rows.length = n
  /-- The one that is printed after `i` others. -/
  row : ∀ i row, rows[i]? = some row → ∃ s, State.new.run (evs.take ((i + 1) * size)) = .ok s ∧
    s.row i (min size (evs.length - i * size)) = .ok row

variable {b b' : Batched} {size : UInt64} {B n : ℕ} {rows : List Row} {row : Row}

/-- Rows are not changed by what follows them. -/
theorem Rows.append (h : Rows B evs n rows) (hn : n * B ≤ evs.length) (evs' : List LobsterEvent) :
    Rows B (evs ++ evs') n rows := by
  refine ⟨h.length, fun i row hi => ?_⟩
  have hin : i < n := h.length ▸ (List.getElem?_eq_some_iff.mp hi).1
  have hle : (i + 1) * B ≤ n * B := Nat.mul_le_mul_right B hin
  have hsucc : (i + 1) * B = i * B + B := Nat.succ_mul i B
  obtain ⟨s, hs, hrow⟩ := h.row i row hi
  refine ⟨s, by rwa [List.take_append_of_le_length (hle.trans hn)], ?_⟩
  rw [List.length_append]
  rw [show min B (evs.length - i * B) = B by omega] at hrow
  rwa [show min B (evs.length + evs'.length - i * B) = B by omega]

/-- A row more, for the events after the others. -/
theorem Rows.snoc (h : Rows B evs n rows) (hrun : State.new.run evs = .ok s) (hle : evs.length ≤ (n + 1) * B)
    (hrow : s.row n (evs.length - n * B) = .ok row) : Rows B evs (n + 1) (rows ++ [row]) := by
  refine ⟨by rw [List.length_append, h.length]; rfl, fun i row' hi => ?_⟩
  by_cases hin : i < n
  · rw [List.getElem?_append_left (h.length.symm ▸ hin)] at hi
    exact h.row i row' hi
  · rw [List.getElem?_append_right (by rw [h.length]; omega), h.length] at hi
    obtain rfl : i = n := by
      have hlt := (List.getElem?_eq_some_iff.mp hi).1
      rw [List.length_singleton] at hlt
      omega
    rw [Nat.sub_self] at hi
    obtain rfl : row = row' := Option.some.inj hi
    refine ⟨s, by rwa [List.take_of_length_le hle], ?_⟩
    have hsucc : (i + 1) * B = i * B + B := Nat.succ_mul i B
    rwa [show min B (evs.length - i * B) = evs.length - i * B by omega]

/-- What the program with batches has after the events `evs`. -/
structure Batched.After (B : ℕ) (evs : List LobsterEvent) (b : Batched) : Prop where
  /-- The book, and the counters. -/
  state : State.new.run evs = .ok b.state
  /-- The events are in the rows, or in the batch. -/
  length : b.batchIdx * B + b.batchEvents = evs.length
  /-- What has been printed. -/
  rows : Rows B evs b.batchIdx b.rows

theorem Batched.after_nil (B : ℕ) : Batched.After B [] {} :=
  ⟨rfl, Nat.zero_mul B, rfl, fun i row hi => by cases hi⟩

/-- A row is printed for a batch that is full, or for the last one. -/
theorem Batched.After.flush (h : b.After B evs) (hle : b.batchEvents ≤ B) (hflush : b.flush = .ok b') :
    b'.batchIdx = b.batchIdx + 1 ∧ b'.batchEvents = 0 ∧ b'.state = b.state ∧ Rows B evs b'.batchIdx b'.rows := by
  obtain ⟨row, hrow, hb'⟩ := bind_eq_ok.mp hflush
  obtain rfl := Except.ok.inj hb'
  have hlen := h.length
  refine ⟨rfl, rfl, rfl, h.rows.snoc h.state ?_ ?_⟩
  · rw [Nat.succ_mul]
    omega
  · rwa [show evs.length - b.batchIdx * B = b.batchEvents by omega]

/-- **One event**: the batch is never full for longer. -/
theorem Batched.After.event (h : b.After (max size.toNat 1) evs) (hlt : b.batchEvents < max size.toNat 1)
    (hev : b.event size ev = .ok b') :
    b'.After (max size.toNat 1) (evs ++ [ev]) ∧ b'.batchEvents < max size.toNat 1 := by
  obtain ⟨s, hs, hev⟩ := bind_eq_ok.mp hev
  have hlen := h.length
  have hafter : Batched.After (max size.toNat 1) (evs ++ [ev]) { b with state := s, batchEvents := b.batchEvents + 1 } := by
    refine ⟨?_, ?_, h.rows.append (by omega) [ev]⟩
    · rw [State.run_append h.state, State.run, hs]
      rfl
    · rw [List.length_append, ← hlen]
      rfl
  dsimp only at hev
  split_ifs at hev with hfull
  · obtain ⟨hidx, hzero, hstate, hrows⟩ := hafter.flush hlt (defined_eq_ok.mp hev)
    refine ⟨⟨hstate ▸ hafter.state, ?_, hrows⟩, by omega⟩
    have hlen' := hafter.length
    dsimp only at hlen' hidx
    rw [hidx, Nat.succ_mul]
    omega
  · obtain rfl := Except.ok.inj hev
    dsimp only
    exact ⟨hafter, by omega⟩

/-- **A run of events.** -/
theorem Batched.After.run {evs' : List LobsterEvent} (h : b.After (max size.toNat 1) evs)
    (hlt : b.batchEvents < max size.toNat 1) (hrun : b.run size evs' = .ok b') :
    b'.After (max size.toNat 1) (evs ++ evs') ∧ b'.batchEvents < max size.toNat 1 := by
  induction evs' generalizing b evs with
  | nil => exact Except.ok.inj hrun ▸ ⟨(List.append_nil evs).symm ▸ h, hlt⟩
  | cons ev evs' ih =>
    obtain ⟨next, hev, hrest⟩ := bind_eq_ok.mp hrun
    obtain ⟨hnext, hlt'⟩ := h.event hlt hev
    rw [List.append_cons]
    exact ih hnext hlt' hrest

/-- **A row can always be printed.** -/
theorem Batched.flush_ok (h : b.state.Sound) : ∃ b', b.flush = .ok b' ∧ b'.state = b.state := by
  obtain ⟨row, hrow⟩ := h.row b.batchIdx b.batchEvents
  rw [Batched.flush, hrow]
  exact ⟨_, rfl, rfl⟩

theorem Batched.event_ok (size : UInt64) (h : b.state.Sound) (hev : b.state.event ev = .ok s) :
    ∃ b', b.event size ev = .ok b' ∧ b'.state = s := by
  rw [Batched.event, hev, ok_bind]
  dsimp only
  split_ifs
  · obtain ⟨b', hb', hstate⟩ :=
      Batched.flush_ok (b := { b with state := s, batchEvents := b.batchEvents + 1 }) (h.event hev)
    exact ⟨b', defined_eq_ok.mpr hb', hstate⟩
  · exact ⟨_, rfl, rfl⟩

/-- **Nothing but an event can stop it.** -/
theorem Batched.run_ok (size : UInt64) (h : b.state.Sound) (hrun : b.state.run evs = .ok s) :
    ∃ b', b.run size evs = .ok b' := by
  induction evs generalizing b with
  | nil => exact ⟨b, rfl⟩
  | cons ev evs ih =>
    obtain ⟨u, hev, hrest⟩ := State.run_cons.mp hrun
    obtain ⟨next, hnext, rfl⟩ := Batched.event_ok size h hev
    rw [Batched.run, hnext]
    exact ih (h.event hev) hrest

/-- What it has in the end, before the last row. -/
theorem Batched.after_lines {ls : List (List Char)} (h : Batched.lines {} size ls = .ok b) :
    ∃ evs, eventsOf ls = .ok evs ∧ b.After (max size.toNat 1) evs ∧ b.batchEvents < max size.toNat 1 := by
  obtain ⟨evs, hevs, hrun⟩ := Batched.lines_eq_ok.mp h
  have hpos : 0 < max size.toNat 1 := Nat.lt_of_lt_of_le Nat.one_pos (le_max_right _ _)
  exact ⟨evs, hevs, (Batched.after_nil (max size.toNat 1)).run hpos hrun⟩

/-! ### The two programs -/

/-- What the plain program has counted in the end is that of its events. -/
theorem replay_state {file : List Char} :
    (∃ r, replay file = .ok r ∧ r.state = s) ↔ ∃ evs, eventsOf (linesOf file) = .ok evs ∧ State.new.run evs = .ok s :=
  Replay.lines_state

/-- **The rows** that are printed for the events of a file. -/
theorem replayBatched_rows (size : UInt64) {file : List Char} (hevs : eventsOf (linesOf file) = .ok evs)
    (hrun : State.new.run evs = .ok s) :
    ∃ rows, replayBatched size file = .ok rows ∧
      Rows (max size.toNat 1) evs ((evs.length + (max size.toNat 1 - 1)) / max size.toNat 1) rows := by
  obtain ⟨b, hb⟩ := Batched.run_ok (b := {}) size State.sound_new hrun
  have hlines : Batched.lines {} size (linesOf file) = .ok b := Batched.lines_eq_ok.mpr ⟨evs, hevs, hb⟩
  obtain ⟨evs', hevs', hafter, hlt⟩ := Batched.after_lines hlines
  obtain rfl : evs = evs' := Except.ok.inj (hevs ▸ hevs')
  have hlen := hafter.length
  rw [replayBatched, hlines, ok_bind]
  generalize max size.toNat 1 = B at hafter hlt hlen ⊢
  split_ifs with hopen
  · obtain ⟨b', hflush, -⟩ := Batched.flush_ok (State.sound_new.run hafter.state)
    obtain ⟨hidx, -, -, hrows⟩ := hafter.flush hlt.le hflush
    refine ⟨b'.rows, by rw [hflush]; rfl, ?_⟩
    have hcount : (evs.length + (B - 1)) / B = b'.batchIdx := by
      refine Nat.div_eq_of_lt_le ?_ ?_ <;> simp only [hidx, Nat.succ_mul] <;> omega
    rwa [hcount]
  · refine ⟨b.rows, rfl, ?_⟩
    have hcount : (evs.length + (B - 1)) / B = b.batchIdx := by
      refine Nat.div_eq_of_lt_le (by omega) ?_
      rw [Nat.succ_mul]
      omega
    rw [hcount]
    exact hafter.rows

theorem State.row_totals {batchIdx batchEvents : ℕ} (h : s.row batchIdx batchEvents = .ok row) :
    row.totals = s.totals := by
  obtain ⟨bestBid, -, h⟩ := bind_eq_ok.mp h
  obtain ⟨bestAsk, -, h⟩ := bind_eq_ok.mp h
  exact Except.ok.inj h ▸ rfl

/-- The last row has all events. -/
theorem Rows.totals_getLast {last : Row} (h : Rows B evs ((evs.length + (B - 1)) / B) rows) (hpos : 0 < B)
    (hrun : State.new.run evs = .ok s) (hlast : rows.getLast? = some last) : last.totals = s.totals := by
  rw [List.getLast?_eq_getElem?] at hlast
  obtain ⟨u, hu, hrow⟩ := h.row _ _ hlast
  have hne : 0 < rows.length := by
    have := (List.getElem?_eq_some_iff.mp hlast).1
    omega
  have hle : evs.length ≤ (rows.length - 1 + 1) * B := by
    rw [Nat.sub_add_cancel hne, h.length]
    have := Nat.div_add_mod (evs.length + (B - 1)) B
    have := Nat.mod_lt (evs.length + (B - 1)) hpos
    rw [Nat.mul_comm]
    omega
  rw [List.take_of_length_le hle, hrun] at hu
  obtain rfl := Except.ok.inj hu
  exact State.row_totals hrow

/-- **The rows of the program with batches are what the plain program counts.** Both reach their ends on the same
files. There is a row for every `size` events and one for the rest, each has the counters and the book that the plain
program has after as many events, and the last one has the counters that it prints. -/
theorem batched_rows (size : UInt64) (file : List Char) :
    ((∃ rows, replayBatched size file = .ok rows) ↔ ∃ r, replay file = .ok r) ∧
      ∀ rows r, replayBatched size file = .ok rows → replay file = .ok r →
        ∃ evs, eventsOf (linesOf file) = .ok evs ∧ State.new.run evs = .ok r.state ∧
          Rows (max size.toNat 1) evs ((evs.length + (max size.toNat 1 - 1)) / max size.toNat 1) rows ∧
          ∀ row ∈ rows.getLast?, row.totals = r.state.totals := by
  refine ⟨⟨?_, ?_⟩, ?_⟩
  · rintro ⟨rows, hrows⟩
    obtain ⟨b, hb, -⟩ := bind_eq_ok.mp hrows
    obtain ⟨evs, hevs, hafter, -⟩ := Batched.after_lines hb
    obtain ⟨r, hr, -⟩ := replay_state.mpr ⟨evs, hevs, hafter.state⟩
    exact ⟨r, hr⟩
  · rintro ⟨r, hr⟩
    obtain ⟨evs, hevs, hrun⟩ := replay_state.mp ⟨r, hr, rfl⟩
    obtain ⟨rows, hrows, -⟩ := replayBatched_rows size hevs hrun
    exact ⟨rows, hrows⟩
  · intro rows r hrows hr
    obtain ⟨evs, hevs, hrun⟩ := replay_state.mp ⟨r, hr, rfl⟩
    obtain ⟨rows', hrows', hall⟩ := replayBatched_rows size hevs hrun
    obtain rfl : rows' = rows := Except.ok.inj (hrows' ▸ hrows)
    exact ⟨evs, hevs, hrun, hall, fun row hrow => hall.totals_getLast (by omega) hrun hrow⟩

/-- **No file makes the programs find a crossed book**, whatever its numbers are. -/
theorem replay_uncrossed (file : List Char) (size : UInt64) :
    (∀ r, replay file = .ok r → r.exitCode = 0) ∧
      ∀ rows, replayBatched size file = .ok rows → ∀ row ∈ rows, row.totals.violations = 0 := by
  refine ⟨fun r hr => ?_, fun rows hrows row hrow => ?_⟩
  · obtain ⟨evs, -, hrun⟩ := replay_state.mp ⟨r, hr, rfl⟩
    rw [Replay.exitCode, if_pos (State.sound_new.run hrun).violations]
  · obtain ⟨b, hb, -⟩ := bind_eq_ok.mp hrows
    obtain ⟨evs, hevs, hafter, -⟩ := Batched.after_lines hb
    obtain ⟨rows', hrows', hall⟩ := replayBatched_rows size hevs hafter.state
    obtain rfl : rows' = rows := Except.ok.inj (hrows' ▸ hrows)
    obtain ⟨i, hi⟩ := List.getElem?_of_mem hrow
    obtain ⟨s, hs, hrow⟩ := hall.row i row hi
    rw [State.row_totals hrow]
    exact (State.sound_new.run hs).violations

/-! ### A day on the reference book -/

/-- What the answer of a call adds to the counters. -/
def Totals.answered (t : Totals) (ev : LobsterEvent) : Answer → Totals
  | .trades ts =>
    { t with
      events := t.events + 1
      trades := t.trades + ts.length
      tradeQty := ts.foldl (fun qty trade => qty + trade.qty) t.tradeQty }
  | .found found =>
    { t with
      events := t.events + 1
      reduceMisses := t.reduceMisses + (decide (ev.type = 2) && !found).toNat
      cancelMisses := t.cancelMisses + (decide (ev.type = 3) && !found).toNat }

/-- What an event is for: one call on the reference book, and what is counted of it. -/
def reference (b : Book × Totals) (ev : LobsterEvent) : Book × Totals :=
  match ev.call with
  | none => (b.1, { b.2 with events := b.2.events + 1 })
  | some op => ((b.1.callWith Book.covers op).2, b.2.answered ev (b.1.callWith Book.covers op).1)

/-- A day whose orders have ids of their own and prices from `lo` to `hi`, and which are not too many. -/
structure Day (lo hi : ℤ) (evs : List LobsterEvent) : Prop where
  /-- No id is that of two orders. -/
  ids : ((evs.filter (·.type = 1)).map (·.orderId)).Nodup
  /-- The prices of the orders. -/
  prices : ∀ ev ∈ evs, ev.type = 1 → lo ≤ ev.price ∧ ev.price ≤ hi
  /-- The arena has a cell for each of them. -/
  count : evs.countP (·.type = 1) ≤ 2097152
  /-- The price axis has room. -/
  room : HasRoom lo hi 150000

variable {lo hi : ℤ}

/-- The beginning of such a day is one. -/
theorem Day.take (h : Day lo hi evs) (n : ℕ) : Day lo hi (evs.take n) where
  ids := h.ids.sublist (((List.take_sublist n evs).filter _).map _)
  prices ev hev := h.prices ev (List.mem_of_mem_take hev)
  count := ((List.take_sublist n evs).countP_le).trans h.count
  room := h.room

theorem filterMap_newId (evs : List LobsterEvent) :
    (evs.filterMap LobsterEvent.call).filterMap Call.newId = (evs.filter (·.type = 1)).map (·.orderId) := by
  induction evs with
  | nil => rfl
  | cons ev evs ih =>
    rw [List.filterMap_cons, List.filter_cons]
    by_cases hadd : ev.type = 1
    · rw [if_pos (decide_eq_true hadd), List.map_cons, ← ih, LobsterEvent.call, if_pos hadd]
      rfl
    · rw [if_neg (by simpa using hadd), ← ih, LobsterEvent.call, if_neg hadd]
      split_ifs <;> rfl

theorem countP_mayRest (evs : List LobsterEvent) :
    (evs.filterMap LobsterEvent.call).countP Call.mayRest = evs.countP (·.type = 1) := by
  induction evs with
  | nil => rfl
  | cons ev evs ih =>
    rw [List.filterMap_cons, List.countP_cons, ← ih]
    by_cases hadd : ev.type = 1
    · rw [if_pos (decide_eq_true hadd), LobsterEvent.call, if_pos hadd]
      exact List.countP_cons_of_pos rfl
    · rw [if_neg (by simpa using hadd), LobsterEvent.call, if_neg hadd]
      split_ifs <;> rfl

/-- **Every call of such a day returns.** -/
theorem Day.returning (h : Day lo hi evs) :
    (OrderBookV2.new 2097152 150000).Returning (Confined lo hi) (evs.filterMap LobsterEvent.call) := by
  refine (settled_new _ _).returning_within (tracked_new _ _) (confined_new lo hi _ _) h.room (fun op hop => ?_) ?_
    (fun id _ hid => by cases hid) ?_
  · obtain ⟨ev, hev, hcall⟩ := List.mem_filterMap.mp hop
    have hrange := LobsterEvent.call_inRange hcall
    rw [LobsterEvent.call] at hcall
    split_ifs at hcall with hadd
    · obtain rfl := Option.some.inj hcall
      exact ⟨hrange, fun _ => h.prices ev hev hadd⟩
    · obtain rfl := Option.some.inj hcall
      trivial
    · obtain rfl := Option.some.inj hcall
      trivial
  · rw [filterMap_newId]
    exact h.ids
  · rw [countP_mayRest]
    exact (Nat.zero_add _).trans_le h.count

/-- No event asks what FOK asks. -/
theorem LobsterEvent.callWith_covers {op : Call} (h : ev.call = some op) (b : Book) :
    b.callWith Book.coversWrapping op = b.callWith Book.covers op := by
  rw [LobsterEvent.call] at h
  split_ifs at h <;> obtain rfl := Option.some.inj h <;> rfl

theorem LobsterEvent.finish_ok (ev : LobsterEvent) {r : CallResult} (h : r.thrown = none) :
    ∃ a, ev.finish r = .ok a ∧ ∀ t : Totals, t.note a false = t.answered ev r.answer := by
  rw [LobsterEvent.finish, h]
  cases r.answer with
  | trades ts => exact ⟨_, rfl, fun t => rfl⟩
  | found found => exact ⟨_, rfl, fun t => rfl⟩

/-- An event whose call returns. -/
theorem State.event_call {op : Call} {r : CallResult} (hcall : ev.call = some op) (hr : s.book.call op = .ok r)
    (hthrown : r.thrown = none) (hc : Settled r.book c) : s.event ev = .ok ⟨r.book, s.totals.answered ev r.answer⟩ := by
  obtain ⟨a, ha, hnote⟩ := LobsterEvent.finish_ok ev hthrown
  have hbook := LobsterEvent.finish_book ha
  rw [State.event, apply_eq, hcall]
  dsimp only
  rw [hr, defined, ok_bind, ha, ok_bind, hbook, crossed_eq_false hc, defined, ok_bind, hnote]

/-- An event that makes none. -/
theorem State.event_none (hcall : ev.call = none) (hc : Settled s.book c) :
    s.event ev = .ok ⟨s.book, { s.totals with events := s.totals.events + 1 }⟩ := by
  rw [State.event, apply_eq, hcall]
  dsimp only
  rw [ok_bind, crossed_eq_false hc]
  rfl

/-- The state has the orders of the reference book, and its counters. -/
structure Follows (s : State) (c : Layout) (b : Book × Totals) : Prop where
  /-- The representation. -/
  settled : Settled s.book c
  /-- The index names every order. -/
  tracked : Tracked s.book c
  /-- The orders. -/
  book : s.book.bookOf c = b.1
  /-- The counters. -/
  totals : s.totals = b.2

/-- **An event** is that on the reference book. -/
theorem Follows.event {P : OrderBookV2 → Prop} {b : Book × Totals} (h : Follows s c b)
    (hrun : s.book.Returning P ((ev :: evs).filterMap LobsterEvent.call)) :
    ∃ s' c', s.event ev = .ok s' ∧ Follows s' c' (reference b ev) ∧
      s'.book.Returning P (evs.filterMap LobsterEvent.call) := by
  rw [List.filterMap_cons] at hrun
  rw [reference]
  cases hcall : ev.call with
  | none =>
    rw [hcall] at hrun
    refine ⟨_, c, State.event_none hcall h.settled, ⟨h.settled, h.tracked, h.book, ?_⟩, hrun⟩
    rw [h.totals]
  | some op =>
    rw [hcall] at hrun
    obtain ⟨-, r, c', hr, hcalled, hthrown, hrest⟩ := h.settled.returning_cons h.tracked hrun
    have hreturned := hcalled.returned hthrown
    rw [LobsterEvent.callWith_covers hcall, h.book] at hreturned
    refine ⟨_, c', State.event_call hcall hr hthrown hcalled.settled, ⟨hcalled.settled, hcalled.tracked, ?_, ?_⟩, hrest⟩
    · exact congrArg Prod.snd hreturned
    · dsimp only
      rw [← hreturned, h.totals]

/-- **A run of events** is that on the reference book. -/
theorem Follows.run {P : OrderBookV2 → Prop} {b : Book × Totals} (h : Follows s c b)
    (hrun : s.book.Returning P (evs.filterMap LobsterEvent.call)) :
    ∃ s' c', s.run evs = .ok s' ∧ Follows s' c' (evs.foldl reference b) := by
  induction evs generalizing s c b with
  | nil => exact ⟨s, c, rfl, h⟩
  | cons ev evs ih =>
    obtain ⟨u, c', hev, hu, hrest⟩ := h.event hrun
    obtain ⟨s', c'', hs', hfollows⟩ := ih hu hrest
    exact ⟨s', c'', State.run_cons.mpr ⟨u, hev, hs'⟩, hfollows⟩

end MatchingEngine.Lobster
