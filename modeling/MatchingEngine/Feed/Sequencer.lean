import MatchingEngine.Feed.MarketData
import MatchingEngine.Feed.RiskEngine

/-!
# The sequencer

`cpp/feed/sequencer.{h,cpp}` with `execution_report.h`: messages are routed to the book of
their symbol, and what happens there is reported. A `Shard` is all the state that
`on_message` works on: the sequencer's own members, the books that `book_for` gives it, and
the risk engine, if there is one. Both callbacks are taken to be set; what they are called
with is listed in order.

`on_message` catches the `std::runtime_error`s of `OrderBookV2::add`. Any other exception
leaves it, with the state as it then is; the one there is comes from a book whose window is no
size of a vector.
-/

namespace MatchingEngine

open Itch Mdfeed

/-! ### Execution reports -/

/-- `enum class ExecReportType`. -/
inductive ExecReportType where
  /-- `Ack`. -/
  | ack
  /-- `Reject`. -/
  | reject
  /-- `Fill`. -/
  | fill
  deriving DecidableEq

/-- `struct ExecutionReport`. -/
structure ExecutionReport where
  /-- `order_id`. -/
  orderId : OrderId
  /-- `type`. -/
  type : ExecReportType
  /-- `symbol`. -/
  symbol : Bytes
  /-- `qty`: requested, or filled. -/
  qty : Quantity
  /-- `price`, of a fill. -/
  price : ℤ
  /-- `reason`, of a rejection. -/
  reason : Bytes
  deriving DecidableEq

/-- A call of one of the two callbacks. -/
inductive Emitted where
  /-- `report_cb`. -/
  | report (r : ExecutionReport)
  /-- `md_cb`. -/
  | event (e : MDEvent)
  deriving DecidableEq

/-! ### State -/

/-- `struct OrderInfo`. -/
structure OrderInfo where
  /-- `symbol`. -/
  symbol : Bytes
  /-- `side`. -/
  side : Side
  /-- `mpid`, empty if the order has none. -/
  mpid : Bytes
  deriving DecidableEq

/-- `struct Stats`. -/
structure Stats where
  /-- `add_orders`. -/
  addOrders : ℕ := 0
  /-- `cancels`. -/
  cancels : ℕ := 0
  /-- `deletes`. -/
  deletes : ℕ := 0
  /-- `executes`. -/
  executes : ℕ := 0
  /-- `non_printable_skipped`. -/
  nonPrintableSkipped : ℕ := 0
  /-- `replaces`. -/
  replaces : ℕ := 0
  /-- `unrouted`. -/
  unrouted : ℕ := 0
  /-- `other_message_types`. -/
  otherMessageTypes : ℕ := 0
  /-- `trades_produced`. -/
  tradesProduced : ℕ := 0
  /-- `add_rejected`. -/
  addRejected : ℕ := 0
  /-- `risk_rejected`. -/
  riskRejected : ℕ := 0
  deriving DecidableEq

/-- The arguments of the constructor of a book. -/
structure BookConfig where
  /-- `arena_capacity`. -/
  arenaCapacity : UInt32
  /-- `initial_window`. -/
  initialWindow : Int64

/-- A `Sequencer` with its books and its risk engine. -/
structure Shard where
  /-- `order_symbol_`. -/
  orderSymbol : OrderId → Option OrderInfo
  /-- `scratch_trades_`: the trades of the last call of `add`. -/
  scratchTrades : List Trade
  /-- `stats_`. -/
  stats : Stats
  /-- What `book_for` gives. -/
  books : Bytes → OrderBookV2
  /-- `risk`. -/
  risk : Option RiskEngine

/-- How a call of `on_message` ends. -/
structure Handled where
  /-- The state afterwards. -/
  shard : Shard
  /-- The calls of the callbacks. -/
  emitted : List Emitted
  /-- The exception that leaves the call. -/
  escaped : Option Exn

namespace Shard

/-- A new sequencer, with new books. -/
def new (config : Bytes → BookConfig) (risk : Option RiskEngine.Config) : Shard where
  orderSymbol := fun _ => none
  scratchTrades := []
  stats := {}
  books := fun symbol => .new (config symbol).arenaCapacity (config symbol).initialWindow.toInt
  risk := risk.map .new

/-- A book is replaced by its next state. -/
def setBook (σ : Shard) (symbol : Bytes) (book : OrderBookV2) : Shard :=
  { σ with books := Function.update σ.books symbol book }

/-- `add` has been called, and has returned or thrown: the book is in its next state, and the trades are in the
buffer. -/
def afterAdd (σ : Shard) (symbol : Bytes) (a : OrderBookV2.AddResult) : Shard :=
  { σ.setBook symbol a.book with scratchTrades := a.trades }

/-- A table entry is written. -/
def setOrder (σ : Shard) (ref : OrderId) (info : OrderInfo) : Shard :=
  { σ with orderSymbol := Function.update σ.orderSymbol ref (some info) }

/-- A table entry is erased. -/
def eraseOrder (σ : Shard) (ref : OrderId) : Shard :=
  { σ with orderSymbol := Function.update σ.orderSymbol ref none }

/-- `stats_` changes. -/
def count (σ : Shard) (f : Stats → Stats) : Shard := { σ with stats := f σ.stats }

/-- `if (risk) …`. -/
def withRisk (σ : Shard) (f : RiskEngine → RiskEngine) : Shard := { σ with risk := σ.risk.map f }

/-- `if (risk) risk->check(…)`. -/
def verdict (σ : Shard) (req : OrderRequest) (info : OrderInfo) : Except Ub RiskEngine.Verdict :=
  match σ.risk with
  | none => .ok .pass
  | some risk => risk.check req info.symbol info.mpid (σ.books info.symbol)

/-! ### What is emitted -/

/-- The report of a rejection. -/
def rejectReport (req : OrderRequest) (symbol reason : Bytes) : Emitted :=
  .report ⟨req.id, .reject, symbol, req.qty, 0, reason⟩

/-- The report of an acceptance. -/
def ackReport (req : OrderRequest) (symbol : Bytes) : Emitted := .report ⟨req.id, .ack, symbol, req.qty, 0, []⟩

/-- `taker_filled`. -/
def takerFilled (req : OrderRequest) (trades : List Trade) : Quantity :=
  trades.foldl (fun filled t => if t.takerId = req.id then filled + t.qty else filled) 0

/-- `resting_qty`. -/
def restingQty (req : OrderRequest) (trades : List Trade) : Quantity := req.qty - takerFilled req trades

/-- What the loop over the trades emits: a fill and a trade event for each. -/
def tradeOutputs (req : OrderRequest) (info : OrderInfo) (timestampNs : UInt64) (trades : List Trade) : List Emitted :=
  trades.flatMap fun t =>
    [.report ⟨req.id, .fill, info.symbol, t.qty, t.price, []⟩,
      .event { type := .trade, side := info.side, timestampNs, orderId := t.makerId, newOrderId := t.takerId
               symbol := symbolPad info.symbol, price := t.price, qty := t.qty }]

/-- What the same loop tells the risk engine. -/
def noteTrades (symbol : Bytes) (trades : List Trade) (risk : RiskEngine) : RiskEngine :=
  trades.foldl (fun risk t => risk.onTrade symbol t.price) risk

/-! ### The handlers -/

/-- `side_from_indicator`: `'B'` is a buy. -/
def sideFromIndicator (c : UInt8) : Side := if c = 66 then .buy else .sell

/-- What is known of an order from its Add Order message. -/
def infoOf (m : AddOrderNoMPID) (mpid : Bytes) : OrderInfo :=
  { symbol := m.stock.str, side := sideFromIndicator m.buySellIndicator, mpid }

/-- The request an order is submitted with. -/
def limitRequest (id : OrderId) (info : OrderInfo) (price shares : UInt32) : OrderRequest :=
  { id, side := info.side, type := .limit, price := price.toNat, qty := shares.toUInt64 }

/-- Add Order, with and without MPID. -/
def addOrder (σ : Shard) (m : AddOrderNoMPID) (mpid : Bytes) : Except Ub Handled := do
  let info := infoOf m mpid
  let req := limitRequest m.orderRefNumber info m.price m.shares
  let verdict ← σ.verdict req info
  if !verdict.accepted then
    .ok ⟨σ.count fun s => { s with riskRejected := s.riskRejected + 1 },
      [rejectReport req info.symbol verdict.detail], none⟩
  else do
    let r ← (σ.books info.symbol).add req
    let σ := (σ.setOrder req.id info).afterAdd info.symbol r
    match r.thrown with
    | none =>
      let resting := restingQty req r.trades
      let add : MDEvent :=
        { type := .add, side := info.side, timestampNs := m.h.timestampNs, orderId := req.id
          symbol := symbolPad info.symbol, price := req.price, qty := resting }
      .ok ⟨((σ.count fun s => { s with
              addOrders := s.addOrders + 1, tradesProduced := s.tradesProduced + r.trades.length }).withRisk
            fun risk => risk.noteResting info.symbol info.mpid info.side).withRisk (noteTrades info.symbol r.trades),
        ackReport req info.symbol :: (if 0 < resting then [.event add] else []) ++
          tradeOutputs req info m.h.timestampNs r.trades, none⟩
    | some (.runtimeError what) =>
      .ok ⟨(σ.eraseOrder req.id).count fun s => { s with addRejected := s.addRejected + 1 },
        [rejectReport req info.symbol (text what)], none⟩
    | some .lengthError => .ok ⟨σ, [], some .lengthError⟩

/-- What Order Cancel, Order Executed and Order Executed With Price do alike: the shares leave the
order, if its symbol is known. -/
def takeShares (σ : Shard) (ref : OrderId) (shares : UInt32) (counted : Stats → Stats)
    (onRisk : OrderInfo → RiskEngine → RiskEngine) (event : OrderInfo → MDEvent) : Except Ub Handled :=
  match σ.orderSymbol ref with
  | none => .ok ⟨σ.count fun s => { s with unrouted := s.unrouted + 1 }, [], none⟩
  | some info => do
    let (_, book) ← (σ.books info.symbol).reduce ref shares.toUInt64
    .ok ⟨((σ.setBook info.symbol book).withRisk (onRisk info)).count counted, [.event (event info)], none⟩

/-- Order Cancel. -/
def orderCancel (σ : Shard) (m : OrderCancel) : Except Ub Handled :=
  σ.takeShares m.orderRefNumber m.canceledShares (fun s => { s with cancels := s.cancels + 1 }) (fun _ => id)
    fun info =>
      { type := .cancel, side := info.side, timestampNs := m.h.timestampNs, orderId := m.orderRefNumber
        symbol := symbolPad info.symbol, qty := m.canceledShares.toUInt64 }

/-- Order Executed. -/
def orderExecuted (σ : Shard) (m : OrderExecuted) : Except Ub Handled :=
  σ.takeShares m.orderRefNumber m.executedShares (fun s => { s with executes := s.executes + 1 }) (fun _ => id)
    fun info =>
      { type := .trade, side := info.side, timestampNs := m.h.timestampNs, orderId := m.orderRefNumber
        symbol := symbolPad info.symbol, price := 0, qty := m.executedShares.toUInt64 }

/-- Order Executed With Price, unless it is marked `'N'`. -/
def orderExecutedWithPrice (σ : Shard) (m : OrderExecutedWithPrice) : Except Ub Handled :=
  if m.printable = 78 then
    .ok ⟨σ.count fun s => { s with nonPrintableSkipped := s.nonPrintableSkipped + 1 }, [], none⟩
  else
    σ.takeShares m.orderRefNumber m.executedShares (fun s => { s with executes := s.executes + 1 })
      (fun info risk => risk.onTrade info.symbol m.executionPrice.toNat) fun info =>
        { type := .trade, side := info.side, timestampNs := m.h.timestampNs, orderId := m.orderRefNumber
          symbol := symbolPad info.symbol, price := m.executionPrice.toNat, qty := m.executedShares.toUInt64 }

/-- Order Delete. -/
def orderDelete (σ : Shard) (m : OrderDelete) : Except Ub Handled :=
  match σ.orderSymbol m.orderRefNumber with
  | none => .ok ⟨σ.count fun s => { s with unrouted := s.unrouted + 1 }, [], none⟩
  | some info => do
    let (_, book) ← (σ.books info.symbol).cancel m.orderRefNumber
    .ok ⟨(((σ.setBook info.symbol book).withRisk fun risk => risk.noteRemoved info.symbol info.mpid info.side).eraseOrder
          m.orderRefNumber).count fun s => { s with deletes := s.deletes + 1 },
      [.event { type := .delete, side := info.side, timestampNs := m.h.timestampNs, orderId := m.orderRefNumber
                symbol := symbolPad info.symbol }], none⟩

/-- Order Replace: the old order is cancelled, and then the new one is added. -/
def orderReplace (σ : Shard) (m : OrderReplace) : Except Ub Handled :=
  match σ.orderSymbol m.originalOrderRefNumber with
  | none => .ok ⟨σ.count fun s => { s with unrouted := s.unrouted + 1 }, [], none⟩
  | some info => do
    let (_, book) ← (σ.books info.symbol).cancel m.originalOrderRefNumber
    let σ := ((σ.setBook info.symbol book).withRisk fun risk =>
      risk.noteRemoved info.symbol info.mpid info.side).eraseOrder m.originalOrderRefNumber
    let req := limitRequest m.newOrderRefNumber info m.price m.shares
    let verdict ← σ.verdict req info
    if !verdict.accepted then
      .ok ⟨σ.count fun s => { s with riskRejected := s.riskRejected + 1 },
        [rejectReport req info.symbol verdict.detail], none⟩
    else do
      let r ← (σ.books info.symbol).add req
      let σ := σ.afterAdd info.symbol r
      match r.thrown with
      | none =>
        let resting := restingQty req r.trades
        let replace : MDEvent :=
          { type := .replace, side := info.side, timestampNs := m.h.timestampNs, orderId := m.originalOrderRefNumber
            newOrderId := m.newOrderRefNumber, symbol := symbolPad info.symbol, price := req.price, qty := resting }
        let delete : MDEvent :=
          { type := .delete, side := info.side, timestampNs := m.h.timestampNs, orderId := m.originalOrderRefNumber
            symbol := symbolPad info.symbol }
        .ok ⟨(((σ.setOrder m.newOrderRefNumber info).count fun s => { s with
                replaces := s.replaces + 1, tradesProduced := s.tradesProduced + r.trades.length }).withRisk
              fun risk => risk.noteResting info.symbol info.mpid info.side).withRisk (noteTrades info.symbol r.trades),
          ackReport req info.symbol :: .event (if 0 < resting then replace else delete) ::
            tradeOutputs req info m.h.timestampNs r.trades, none⟩
      | some (.runtimeError what) =>
        .ok ⟨σ.count fun s => { s with addRejected := s.addRejected + 1 },
          [rejectReport req info.symbol (text what)], none⟩
      | some .lengthError => .ok ⟨σ, [], some .lengthError⟩

/-- `on_message`. -/
def onMessage (σ : Shard) : Message → Except Ub Handled
  | .addOrderNoMPID m => σ.addOrder m []
  | .addOrderMPID m => σ.addOrder m.toAddOrderNoMPID m.attribution.str
  | .orderCancel m => σ.orderCancel m
  | .orderDelete m => σ.orderDelete m
  | .orderExecuted m => σ.orderExecuted m
  | .orderExecutedWithPrice m => σ.orderExecutedWithPrice m
  | .orderReplace m => σ.orderReplace m
  | _ => .ok ⟨σ.count fun s => { s with otherMessageTypes := s.otherMessageTypes + 1 }, [], none⟩

/-- Message after message, with all that is emitted. -/
def run (σ : Shard) : List Message → Except Ub (Shard × List Emitted)
  | [] => .ok (σ, [])
  | m :: ms => do
    let r ← σ.onMessage m
    let (σ', es) ← r.shard.run ms
    .ok (σ', r.emitted ++ es)

end Shard

end MatchingEngine
