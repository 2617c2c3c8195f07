import MatchingEngine.Feed.SequencerRuns

/-!
# Reports and counters

A message that returns is counted once, in one of ten counters, and the reports agree with
them: an acceptance for each order that was added or has replaced another, a rejection for each
that was not, and a fill for each trade. And an order that is accepted is accounted for: what its
fills report and what then rests is what it was submitted with.

A message that an exception leaves is not counted, and nothing is reported of it. So the counters
add up if and only if no order of the run fails for want of a window (`run_accounted`).
-/

namespace MatchingEngine

open Foundation Itch Mdfeed Function OrderBookV2

/-! ### Counting -/

/-- The messages that the counters have counted. -/
def Stats.handled (s : Stats) : ℕ :=
  s.addOrders + s.cancels + s.deletes + s.executes + s.nonPrintableSkipped + s.replaces + s.unrouted +
    s.otherMessageTypes + s.addRejected + s.riskRejected

/-- A report of a type. -/
def Emitted.reports (type : ExecReportType) : Emitted → Bool
  | .report rep => rep.type = type
  | .event _ => false

/-- How many reports are of a type. -/
def reported (type : ExecReportType) (es : List Emitted) : ℕ := es.countP (·.reports type)

/-- The shares that a fill reports of an order. -/
def Emitted.filled (ref : OrderId) : Emitted → ℕ
  | .report rep => if rep.type = .fill ∧ rep.orderId = ref then rep.qty.toNat else 0
  | .event _ => 0

/-- The shares that all fills report of an order. -/
def filled (ref : OrderId) (es : List Emitted) : ℕ := (es.map (·.filled ref)).sum

@[simp] theorem reported_append (type : ExecReportType) (es es' : List Emitted) :
    reported type (es ++ es') = reported type es + reported type es' := List.countP_append

@[simp] theorem filled_append (ref : OrderId) (es es' : List Emitted) :
    filled ref (es ++ es') = filled ref es + filled ref es' := by
  rw [filled, List.map_append, List.sum_append]
  rfl

/-- The order that a message submits: its number, and its shares. -/
def Itch.Message.submits : Message → Option (OrderId × Quantity)
  | .addOrderNoMPID m => some (m.orderRefNumber, m.shares.toUInt64)
  | .addOrderMPID m => some (m.orderRefNumber, m.shares.toUInt64)
  | .orderReplace m => some (m.newOrderRefNumber, m.shares.toUInt64)
  | _ => none

namespace Shard

variable {σ : Shard} {past : List Message} {used : List OrderId} {ref : OrderId} {info : OrderInfo} {req : OrderRequest}
  {m : Message} {r : Handled} {es : List Emitted}

/-- **The counters and the reports agree.** -/
structure Accounted (σ : Shard) (ms : List Message) (es : List Emitted) : Prop where
  /-- Each message is counted once. -/
  messages : ms.length = σ.stats.handled
  /-- An acceptance for each order that was added, or that has replaced another. -/
  acks : reported .ack es = σ.stats.addOrders + σ.stats.replaces
  /-- A rejection for each that was not. -/
  rejects : reported .reject es = σ.stats.addRejected + σ.stats.riskRejected
  /-- A fill for each trade. -/
  fills : reported .fill es = σ.stats.tradesProduced

/-- What one message adds to the counters and to the reports. -/
structure Counts (σ : Shard) (r : Handled) : Prop where
  /-- It is counted once, unless an exception leaves it. -/
  messages : r.shard.stats.handled = σ.stats.handled + if r.escaped = none then 1 else 0
  /-- Acceptances. -/
  acks : r.shard.stats.addOrders + r.shard.stats.replaces =
    σ.stats.addOrders + σ.stats.replaces + reported .ack r.emitted
  /-- Rejections. -/
  rejects : r.shard.stats.addRejected + r.shard.stats.riskRejected =
    σ.stats.addRejected + σ.stats.riskRejected + reported .reject r.emitted
  /-- Fills. -/
  fills : r.shard.stats.tradesProduced = σ.stats.tradesProduced + reported .fill r.emitted

/-- The reports are those that the counters count. -/
def Reported (σ : Shard) (es : List Emitted) : Prop :=
  reported .ack es = σ.stats.addOrders + σ.stats.replaces ∧
    reported .reject es = σ.stats.addRejected + σ.stats.riskRejected ∧ reported .fill es = σ.stats.tradesProduced

theorem Reported.step (h : σ.Reported es) (hr : Counts σ r) : r.shard.Reported (es ++ r.emitted) := by
  obtain ⟨hacks, hrejects, hfills⟩ := h
  refine ⟨?_, ?_, ?_⟩
  · rw [reported_append, hacks, hr.acks]
  · rw [reported_append, hrejects, hr.rejects]
  · rw [reported_append, hfills, hr.fills]

/-- The loop over the trades reports a fill for each. -/
theorem reported_tradeOutputs (type : ExecReportType) (req : OrderRequest) (info : OrderInfo) (timestampNs : UInt64)
    (ts : List Trade) :
    reported type (tradeOutputs req info timestampNs ts) = if type = .fill then ts.length else 0 := by
  have hone : ∀ t : Trade, (([.report ⟨req.id, .fill, info.symbol, t.qty, t.price, []⟩,
      .event { type := .trade, side := info.side, timestampNs, orderId := t.makerId, newOrderId := t.takerId
               symbol := symbolPad info.symbol, price := t.price, qty := t.qty }] : List Emitted).countP
        (·.reports type)) = if type = .fill then 1 else 0 := by
    intro t
    cases type <;> rfl
  rw [reported, tradeOutputs, List.countP_flatMap]
  induction ts with
  | nil => cases type <;> rfl
  | cons t ts ih =>
    rw [List.map_cons, List.sum_cons, ih, Function.comp_apply, hone]
    cases type <;> simp [Nat.add_comm]

/-- What is reported of an order that is accepted: that it is, and its fills. -/
theorem reported_accepted (type : ExecReportType) (req : OrderRequest) (info : OrderInfo) (timestampNs : UInt64)
    (ts : List Trade) (events : List Emitted) (hev : ∀ e ∈ events, e.reports type = false) :
    reported type (ackReport req info.symbol :: events ++ tradeOutputs req info timestampNs ts) =
      (if type = .ack then 1 else 0) + if type = .fill then ts.length else 0 := by
  have hnone : reported type events = 0 := by
    rw [reported, List.countP_eq_zero]
    intro e he
    rw [hev e he]
    exact Bool.false_ne_true
  have hack : reported type (ackReport req info.symbol :: events) = if type = .ack then 1 else 0 := by
    rw [show ackReport req info.symbol :: events = [ackReport req info.symbol] ++ events from rfl, reported_append, hnone]
    cases type <;> rfl
  rw [reported_append, hack, reported_tradeOutputs]

/-- The first event of an order that is accepted is no report. -/
theorem reports_event (type : ExecReportType) (e : MDEvent) (c : Prop) [Decidable c] :
    ∀ x ∈ (if c then [Emitted.event e] else []), x.reports type = false := by
  intro x hx
  split_ifs at hx
  · rw [List.mem_singleton.mp hx]
    rfl
  · cases hx

theorem Adds.counts {timestampNs : UInt64} (hr : Adds σ info req timestampNs r) : Counts σ r := by
  cases hr with
  | declined v =>
    refine ⟨?_, rfl, rfl, rfl⟩
    simp only [Shard.count, Stats.handled, if_true]
    omega
  | returned v a add =>
    have hrep := fun type => reported_accepted type req info timestampNs a.trades _
      (reports_event type add (0 < restingQty req a.trades))
    refine ⟨?_, ?_, ?_, ?_⟩
    · simp only [submitted, Shard.withRisk, Shard.count, afterAdd, setBook, setOrder, Stats.handled, if_true]
      omega
    · rw [hrep]
      show σ.stats.addOrders + 1 + σ.stats.replaces = σ.stats.addOrders + σ.stats.replaces + (1 + 0)
      omega
    · rw [hrep]
      rfl
    · rw [hrep]
      show σ.stats.tradesProduced + a.trades.length = σ.stats.tradesProduced + (0 + a.trades.length)
      omega
  | threw v a what =>
    refine ⟨?_, rfl, ?_, rfl⟩
    · simp only [Shard.count, afterAdd, setBook, setOrder, eraseOrder, Stats.handled, if_true]
      omega
    · show σ.stats.addRejected + 1 + σ.stats.riskRejected = σ.stats.addRejected + σ.stats.riskRejected + 1
      omega
  | escaped v a => exact ⟨rfl, rfl, rfl, rfl⟩

theorem TakesShares.counts {shares : UInt32} {counted : Stats → Stats} {onRisk : OrderInfo → RiskEngine → RiskEngine}
    {event : OrderInfo → MDEvent} (hr : TakesShares σ ref shares counted onRisk event r)
    (hc : ∀ s, (counted s).handled = s.handled + 1 ∧
      (counted s).addOrders + (counted s).replaces = s.addOrders + s.replaces ∧
      (counted s).addRejected + (counted s).riskRejected = s.addRejected + s.riskRejected ∧
      (counted s).tradesProduced = s.tradesProduced) : Counts σ r := by
  cases hr with
  | unknown =>
    refine ⟨?_, rfl, rfl, rfl⟩
    simp only [Shard.count, Stats.handled, if_true]
    omega
  | known info s =>
    obtain ⟨h₁, h₂, h₃, h₄⟩ := hc σ.stats
    exact ⟨h₁, h₂, h₃, h₄⟩

theorem Deletes.counts {m : OrderDelete} (hr : Deletes σ m r) : Counts σ r := by
  cases hr with
  | unknown =>
    refine ⟨?_, rfl, rfl, rfl⟩
    simp only [Shard.count, Stats.handled, if_true]
    omega
  | known info s =>
    refine ⟨?_, rfl, rfl, rfl⟩
    simp only [Shard.count, withdrawn, eraseOrder, withRisk, setBook, Stats.handled, if_true]
    omega

theorem Replaces.counts {m : OrderReplace} (hr : Replaces σ m r) : Counts σ r := by
  cases hr with
  | unknown =>
    refine ⟨?_, rfl, rfl, rfl⟩
    simp only [Shard.count, Stats.handled, if_true]
    omega
  | declined info s v =>
    refine ⟨?_, rfl, rfl, rfl⟩
    simp only [Shard.count, withdrawn, eraseOrder, withRisk, setBook, Stats.handled, if_true]
    omega
  | returned info s v a =>
    have hrep : ∀ type, reported type (ackReport (replaceRequest m info) info.symbol ::
        .event (replaceEvent m info (restingQty (replaceRequest m info) a.trades)) ::
        tradeOutputs (replaceRequest m info) info m.h.timestampNs a.trades) =
          (if type = .ack then 1 else 0) + if type = .fill then a.trades.length else 0 := by
      intro type
      apply reported_accepted type _ _ _ _ [_]
      simp [Emitted.reports]
    refine ⟨?_, ?_, ?_, ?_⟩
    · simp only [submitted, Shard.withRisk, Shard.count, afterAdd, setBook, setOrder, withdrawn, eraseOrder,
        Stats.handled, if_true]
      omega
    · rw [hrep]
      show σ.stats.addOrders + (σ.stats.replaces + 1) = σ.stats.addOrders + σ.stats.replaces + (1 + 0)
      omega
    · rw [hrep]
      rfl
    · rw [hrep]
      show σ.stats.tradesProduced + a.trades.length = σ.stats.tradesProduced + (0 + a.trades.length)
      omega
  | threw info s v a what =>
    refine ⟨?_, rfl, ?_, rfl⟩
    · simp only [Shard.count, withdrawn, afterAdd, setBook, withRisk, eraseOrder, Stats.handled, if_true]
      omega
    · show σ.stats.addRejected + 1 + σ.stats.riskRejected = σ.stats.addRejected + σ.stats.riskRejected + 1
      omega
  | escaped info s v a => exact ⟨rfl, rfl, rfl, rfl⟩

/-- **Every message that returns is counted once**, and so are its reports. -/
theorem Handles.counts (hr : Handles σ m r) : Counts σ r := by
  cases hr with
  | addOrderNoMPID hr => exact hr.counts
  | addOrderMPID hr => exact hr.counts
  | orderCancel hr =>
    refine hr.counts fun s => ⟨?_, rfl, rfl, rfl⟩
    simp only [Stats.handled]
    omega
  | orderExecuted hr =>
    refine hr.counts fun s => ⟨?_, rfl, rfl, rfl⟩
    simp only [Stats.handled]
    omega
  | nonPrintable =>
    refine ⟨?_, rfl, rfl, rfl⟩
    simp only [Shard.count, Stats.handled, if_true]
    omega
  | orderExecutedWithPrice _ hr =>
    refine hr.counts fun s => ⟨?_, rfl, rfl, rfl⟩
    simp only [Stats.handled]
    omega
  | orderDelete hr => exact hr.counts
  | orderReplace hr => exact hr.counts
  | other =>
    refine ⟨?_, rfl, rfl, rfl⟩
    simp only [Shard.count, Stats.handled, if_true]
    omega

/-! ### What is filled, and what rests -/

/-- Only the orders that messages submit are reported on. -/
def ReportsOn (refs : List OrderId) (es : List Emitted) : Prop := ∀ rep, .report rep ∈ es → rep.orderId ∈ refs

theorem filled_eq_zero {refs : List OrderId} (h : ReportsOn refs es) (hid : ref ∉ refs) : filled ref es = 0 := by
  rw [filled, List.sum_eq_zero_iff]
  intro n hn
  obtain ⟨e, he, rfl⟩ := List.mem_map.mp hn
  cases e with
  | event e => rfl
  | report rep =>
    rw [Emitted.filled, if_neg]
    rintro ⟨-, rfl⟩
    exact hid (h rep he)

/-- The loop over the trades reports what they trade. -/
theorem filled_tradeOutputs (req : OrderRequest) (info : OrderInfo) (timestampNs : UInt64) (ts : List Trade) :
    filled req.id (tradeOutputs req info timestampNs ts) = tradedQty ts := by
  induction ts with
  | nil => rfl
  | cons t ts ih =>
    have hcons : tradeOutputs req info timestampNs (t :: ts) =
        tradeOutputs req info timestampNs [t] ++ tradeOutputs req info timestampNs ts := by
      simp [tradeOutputs]
    have hone : filled req.id (tradeOutputs req info timestampNs [t]) = t.qty.toNat := by
      simp [tradeOutputs, filled, Emitted.filled]
    rw [hcons, filled_append, ih, hone, tradedQty, tradedQty, List.map_cons, List.sum_cons]

/-- What is reported of one order that is accepted. -/
structure Accepts (req : OrderRequest) (r : Handled) : Prop where
  /-- Everything is about it. -/
  reports : ReportsOn [req.id] r.emitted
  /-- If it is accepted, it is accounted for. -/
  account : ∀ rep, .report rep ∈ r.emitted → rep.type = .ack →
    rep.orderId = req.id ∧ rep.qty = req.qty ∧
      filled req.id r.emitted + r.shard.resting rep.symbol req.id = req.qty.toNat

theorem Accepts.of_rejected {symbol reason : Bytes} (hr : r.emitted = [rejectReport req symbol reason]) : Accepts req r where
  reports rep hrep := by
    rw [hr, rejectReport, List.mem_singleton, Emitted.report.injEq] at hrep
    rw [hrep]
    exact List.mem_singleton.mpr rfl
  account rep hrep hack := by
    rw [hr, rejectReport, List.mem_singleton, Emitted.report.injEq] at hrep
    rw [hrep] at hack
    cases hack

theorem Accepts.of_silent (hr : r.emitted = []) : Accepts req r where
  reports rep hrep := by
    rw [hr] at hrep
    cases hrep
  account rep hrep := by
    rw [hr] at hrep
    cases hrep

/-- **An order that its book takes** is accepted, and accounted for. -/
theorem Accepts.of_submitted {a : AddResult} (ha : LimitAdded (σ.books info.symbol) req a) (hthrown : a.thrown = none)
    (hid : req.id ∉ (σ.book info.symbol).ids) (counted : Stats → Stats) (events : List Emitted)
    (hev : ∀ rep, .report rep ∉ events) {timestampNs : UInt64} (hshard : r.shard = σ.submitted req info a counted)
    (hr : r.emitted = ackReport req info.symbol :: events ++ tradeOutputs req info timestampNs a.trades) :
    Accepts req r where
  reports rep hrep := by
    rw [hr, List.cons_append, List.mem_cons, List.mem_append] at hrep
    obtain hrep | hrep | hrep := hrep
    · rw [Emitted.report.inj hrep]
      exact List.mem_singleton.mpr rfl
    · exact absurd hrep (hev rep)
    · obtain ⟨t, -, hrep⟩ := List.mem_flatMap.mp hrep
      simp only [List.mem_cons, List.not_mem_nil, or_false, reduceCtorEq, Emitted.report.injEq] at hrep
      rw [hrep]
      exact List.mem_singleton.mpr rfl
  account rep hrep hack := by
    have hrep' : rep = ⟨req.id, .ack, info.symbol, req.qty, 0, []⟩ := by
      rw [hr, List.cons_append, List.mem_cons, List.mem_append] at hrep
      obtain hrep | hrep | hrep := hrep
      · exact Emitted.report.inj hrep
      · exact absurd hrep (hev rep)
      · obtain ⟨t, -, hrep⟩ := List.mem_flatMap.mp hrep
        simp only [List.mem_cons, List.not_mem_nil, or_false, reduceCtorEq, Emitted.report.injEq] at hrep
        rw [hrep] at hack
        cases hack
    have hevents : filled req.id (ackReport req info.symbol :: events) = 0 := by
      rw [filled, List.sum_eq_zero_iff]
      intro n hn
      obtain ⟨e, he, rfl⟩ := List.mem_map.mp hn
      obtain rfl | he := List.mem_cons.mp he
      · rfl
      · cases e with
        | event e => rfl
        | report rep => exact absurd he (hev rep)
    have hbook : (σ.submitted req info a counted).book info.symbol = a.book.book :=
      (book_afterAdd (σ.setOrder req.id info) info.symbol info.symbol a).trans (if_pos rfl)
    rw [hrep']
    refine ⟨rfl, rfl, ?_⟩
    rw [hr, filled_append, hevents, filled_tradeOutputs, Nat.zero_add, hshard, resting, hbook]
    exact ha.account hid hthrown

theorem Adds.accepts (h : σ.Ok used) (hid : req.id ∉ used) {timestampNs : UInt64} (hr : Adds σ info req timestampNs r) :
    Accepts req r := by
  cases hr with
  | declined v => exact .of_rejected rfl
  | threw v a what => exact .of_rejected rfl
  | escaped v a => exact .of_silent rfl
  | returned v a add _ _ _ ha hthrown =>
    refine .of_submitted ha hthrown (h.not_mem_ids hid _) _ _ ?_ rfl rfl
    intro rep hrep
    split_ifs at hrep
    · cases List.mem_singleton.mp hrep
    · cases hrep

theorem Replaces.accepts {m : OrderReplace} (h : σ.Ok used) (hid : m.newOrderRefNumber ∉ used) (hr : Replaces σ m r)
    (hknown : (σ.orderSymbol m.originalOrderRefNumber).isSome) : ∃ info, Accepts (replaceRequest m info) r := by
  cases hr with
  | unknown hn =>
    rw [hn] at hknown
    cases hknown
  | declined info s v => exact ⟨info, .of_rejected rfl⟩
  | threw info s v a what => exact ⟨info, .of_rejected rfl⟩
  | escaped info s v a => exact ⟨info, .of_silent rfl⟩
  | returned info s v a hw _ _ _ ha hthrown =>
    refine ⟨info, .of_submitted (added_withdrawn ha σ m.originalOrderRefNumber info) hthrown
      ((h.withdrawn hw).not_mem_ids hid _) _
      [.event (replaceEvent m info (restingQty (replaceRequest m info) a.trades))] ?_ rfl rfl⟩
    intro rep hrep
    cases List.mem_singleton.mp hrep

/-- What one message reports. -/
structure Reports (m : Message) (r : Handled) : Prop where
  /-- Everything is about the order that it submits. -/
  reports : ReportsOn m.newRef.toList r.emitted
  /-- If that is accepted, it is accounted for. -/
  account : ∀ rep, .report rep ∈ r.emitted → rep.type = .ack → m.submits = some (rep.orderId, rep.qty) ∧
    filled rep.orderId r.emitted + r.shard.resting rep.symbol rep.orderId = rep.qty.toNat

theorem Accepts.toReports (h : Accepts req r) (hnew : m.newRef = some req.id) (hsub : m.submits = some (req.id, req.qty)) :
    Reports m r where
  reports := by
    rw [hnew]
    exact h.reports
  account rep hrep hack := by
    obtain ⟨hid, hqty, hacc⟩ := h.account rep hrep hack
    rw [hid, hqty]
    exact ⟨hsub, hacc⟩

theorem Reports.of_none (h : ∀ rep, .report rep ∉ r.emitted) : Reports m r :=
  ⟨fun rep hrep => absurd hrep (h rep), fun rep hrep => absurd hrep (h rep)⟩

/-- **Every message reports on the order that it submits**, and on no other. -/
theorem Handles.toReports (hr : Handles σ m r) (h : σ.Ok used) (hfresh : ∀ ref ∈ m.newRef, ref ∉ used) : Reports m r := by
  have htakes : ∀ {m ref shares counted onRisk event}, TakesShares σ ref shares counted onRisk event r → Reports m r := by
    rintro m ref shares counted onRisk event (_ | _)
    · exact .of_none (by simp)
    · exact .of_none (by simp)
  cases hr with
  | addOrderNoMPID hr => exact (hr.accepts h (hfresh _ rfl)).toReports rfl rfl
  | addOrderMPID hr => exact (hr.accepts h (hfresh _ rfl)).toReports rfl rfl
  | orderCancel hr => exact htakes hr
  | orderExecuted hr => exact htakes hr
  | nonPrintable => exact .of_none (by simp)
  | orderExecutedWithPrice _ hr => exact htakes hr
  | orderDelete hr =>
    cases hr with
    | unknown => exact .of_none (by simp)
    | known => exact .of_none (by simp)
  | @orderReplace m _ hr =>
    cases hi : σ.orderSymbol m.originalOrderRefNumber with
    | none =>
      cases hr with
      | unknown => exact .of_none (by simp)
      | declined info s v hw => exact absurd (hi.symm.trans hw.known) (by simp)
      | returned info s v a hw => exact absurd (hi.symm.trans hw.known) (by simp)
      | threw info s v a what hw => exact absurd (hi.symm.trans hw.known) (by simp)
      | escaped info s v a hw => exact absurd (hi.symm.trans hw.known) (by simp)
    | some info =>
      obtain ⟨info, hacc⟩ := hr.accepts h (hfresh _ rfl) (by rw [hi]; rfl)
      exact hacc.toReports rfl rfl
  | other => exact .of_none (by simp)

/-! ### Runs -/

/-- No message is counted more than once, and every message is counted exactly if each returns. -/
structure Countable (σ₀ : Shard) (past : List Message) (σ : Shard) (es : List Emitted) : Prop where
  /-- The run. -/
  run : σ₀.run past = .ok (σ, es)
  /-- Not more than once. -/
  le : σ.stats.handled ≤ past.length
  /-- Exactly once. -/
  eq_iff : past.length = σ.stats.handled ↔ σ₀.Along MessageReturns past

theorem Countable.step {σ₀ : Shard} (h : Countable σ₀ past σ es) (hok : σ.Ok used) (hr : σ.onMessage m = .ok r)
    (hh : Handles σ m r) : Countable σ₀ (past ++ [m]) r.shard (es ++ r.emitted) := by
  have hlength : (past ++ [m]).length = past.length + 1 := List.length_append
  have hle := h.le
  have heq := h.eq_iff
  have hmessages := hh.counts.messages
  have hreturns := hh.returns_iff hok
  refine ⟨run_snoc h.run hr, ?_, ?_⟩
  · split_ifs at hmessages <;> omega
  · rw [along_snoc h.run, hreturns, ← heq]
    by_cases hesc : r.escaped = none
    · rw [if_pos hesc] at hmessages
      simp only [hesc, and_true]
      omega
    · rw [if_neg hesc] at hmessages
      simp only [hesc, and_false, iff_false]
      omega

/-- **Reports and counters agree** after a run, each message being counted once, if and only if no order of the run
fails for want of a window. There is then an acceptance for each order that was added or has replaced another, a
rejection for each that was not, and a fill for each trade. In every run, what the fills of an order that the next
message has accepted report, and what then rests, is what it was submitted with. -/
theorem run_accounted (config : Bytes → BookConfig) (risk : Option RiskEngine.Config) {ms : List Message}
    (hnd : (newRefs ms).Nodup) :
    ∃ σ es, (new config risk).run ms = .ok (σ, es) ∧
      (σ.Accounted ms es ↔ (new config risk).Along MessageReturns ms) ∧
      ∀ m, (newRefs (ms ++ [m])).Nodup → ∃ r, σ.onMessage m = .ok r ∧
        ∀ rep, .report rep ∈ r.emitted → rep.type = .ack → m.submits = some (rep.orderId, rep.qty) ∧
          filled rep.orderId (es ++ r.emitted) + r.shard.resting rep.symbol rep.orderId = rep.qty.toNat := by
  obtain ⟨σ, es, hrun, hok, hrep, hold, hcount⟩ :=
    run_induction (J := fun ms σ es => σ.Reported es ∧ ReportsOn (newRefs ms) es ∧ Countable (new config risk) ms σ es)
      config risk ⟨⟨rfl, rfl, rfl⟩, fun rep hrep => absurd hrep List.not_mem_nil,
        ⟨rfl, le_rfl, iff_of_true rfl trivial⟩⟩ (by
        rintro past m σ es r hnd hok ⟨hrep, hold, hcount⟩ hr hh
        refine ⟨hrep.step hh.counts, fun rep hmem => ?_, hcount.step hok hr hh⟩
        rw [newRefs_append, List.mem_append]
        obtain hmem | hmem := List.mem_append.mp hmem
        · exact Or.inl (hold rep hmem)
        · have := (hh.toReports hok (fresh_of_nodup hnd)).reports rep hmem
          right
          cases hm : m.newRef with
          | none =>
            rw [hm] at this
            cases this
          | some new => simpa [newRefs, hm] using this) ms hnd
  obtain ⟨hacks, hrejects, hfills⟩ := hrep
  refine ⟨σ, es, hrun, ⟨fun hacc => hcount.eq_iff.mp hacc.messages,
    fun halong => ⟨hcount.eq_iff.mpr halong, hacks, hrejects, hfills⟩⟩, fun m hm => ?_⟩
  obtain ⟨r, hr, hh⟩ := hok.onMessage m (fresh_of_nodup hm)
  have hrep := hh.toReports hok (fresh_of_nodup hm)
  refine ⟨r, hr, fun rep hmem hack => ?_⟩
  obtain ⟨hsub, haccount⟩ := hrep.account rep hmem hack
  refine ⟨hsub, ?_⟩
  -- its number is new, so nothing was filled of it before
  have hzero : filled rep.orderId es = 0 := by
    apply filled_eq_zero hold
    have hnew := hrep.reports rep hmem
    exact fresh_of_nodup hm _ (Option.mem_toList.mp hnew)
  rw [filled_append, hzero, Nat.zero_add]
  exact haccount

theorem run_accounted_four :
    ∃ σ es, (new smallBooks none).run fourMessages = .ok (σ, es) ∧ σ.Accounted fourMessages es ∧
      ∀ m, (newRefs (fourMessages ++ [m])).Nodup → ∃ r, σ.onMessage m = .ok r ∧
        ∀ rep, .report rep ∈ r.emitted → rep.type = .ack → m.submits = some (rep.orderId, rep.qty) ∧
          filled rep.orderId (es ++ r.emitted) + r.shard.resting rep.symbol rep.orderId = rep.qty.toNat := by
  obtain ⟨σ, es, hrun, hiff, hnext⟩ := run_accounted smallBooks none (by decide : (newRefs fourMessages).Nodup)
  exact ⟨σ, es, hrun, hiff.mpr (by decide), hnext⟩

/-- **An order for a book with a negative window** is neither counted nor reported, and the table keeps its entry. -/
theorem run_unaccounted :
    ∃ σ, (new (fun _ => ⟨8, -1⟩) none).run [addAB 1 66 5 100 77] = .ok (σ, []) ∧
      ¬ σ.Accounted [addAB 1 66 5 100 77] [] ∧ (σ.orderSymbol 1).isSome ∧ (σ.book [65, 66]).orders = [] := by
  have hrun : ((new (fun _ => ⟨8, -1⟩) none).run [addAB 1 66 5 100 77]).toOption.any (fun x =>
      x.2 = [] ∧ x.1.stats.handled = 0 ∧ (x.1.orderSymbol 1).isSome ∧ (x.1.book [65, 66]).orders = []) = true := by decide
  obtain ⟨⟨σ, es⟩, hrun, hx⟩ := exists_of_toOption_any hrun
  obtain ⟨rfl, hhandled, hroute, hbook⟩ := of_decide_eq_true hx
  exact ⟨σ, hrun, fun hacc => absurd (hacc.messages.trans hhandled) (by decide), hroute, hbook⟩

end Shard

end MatchingEngine
