import MatchingEngine.Core.PriceBand
import MatchingEngine.Sidecar.Integers

/-!
# The engine behind the bridge

`MatchingEngine` of `rust/src/lib.rs`, the types and functions of the bridge (`rust/src/ffi.rs`), and the
adapter on the other side of it (`cpp/src/order_book_v2_ffi.cpp`). An order is written in three types
one after the other and its trades in three types back; the prices are `i64`s on the way, and the adapter
keeps one buffer for the trades of all calls. No function of the bridge returns a `Result`, so that an
exception of the book ends the process.

Whatever is called within a band of prices, the crate's engine shows what the reference book shows
(`engine_shows`).
-/

namespace MatchingEngine.Sidecar.Bridge

open MatchingEngine.Foundation

/-! ### The bridge -/

/-- `enum FfiSide`. -/
inductive FfiSide where
  /-- `Buy`. -/
  | buy
  /-- `Sell`. -/
  | sell
  deriving DecidableEq

/-- `enum FfiOrderType`. -/
inductive FfiOrderType where
  /-- `Limit`. -/
  | limit
  /-- `Market`. -/
  | market
  /-- `Cancel`. -/
  | cancel
  deriving DecidableEq

/-- `struct FfiOrderRequest`. -/
structure FfiOrderRequest where
  /-- `id`. -/
  id : UInt64
  /-- `side`. -/
  side : FfiSide
  /-- `kind`. -/
  kind : FfiOrderType
  /-- `price`. -/
  price : Int64
  /-- `qty`. -/
  qty : UInt64

/-- `struct FfiTrade`. -/
structure FfiTrade where
  /-- `maker_id`. -/
  makerId : UInt64
  /-- `taker_id`. -/
  takerId : UInt64
  /-- `price`. -/
  price : Int64
  /-- `qty`. -/
  qty : UInt64

/-- How a call ends that does not return. -/
inductive Abort where
  /-- The book does what the language leaves undefined. -/
  | ub (u : Ub)
  /-- The book throws. -/
  | thrown (e : Exn)

/-- What the book returns. -/
def returned {α : Type} (x : Except Ub α) : Except Abort α :=
  match x with
  | .ok a => .ok a
  | .error u => .error (.ub u)

/-! ### The adapter -/

/-- `class OrderBookV2Ffi`. -/
structure OrderBookV2Ffi where
  /-- `inner_`. -/
  inner : OrderBookV2
  /-- `trades_scratch_`. -/
  tradesScratch : List MatchingEngine.Trade := []

/-- `to_side`. -/
def toSide (s : FfiSide) : MatchingEngine.Side := if s = .buy then .buy else .sell

/-- `to_type`. -/
def toType : FfiOrderType → MatchingEngine.OrderType
  | .market => .market
  | .cancel => .cancel
  | .limit => .limit

/-- `native`. -/
def FfiOrderRequest.native (req : FfiOrderRequest) : MatchingEngine.OrderRequest :=
  ⟨req.id, toSide req.side, toType req.kind, req.price.toInt, req.qty⟩

/-- `FfiTrade{ t.maker_id, t.taker_id, t.price, t.qty }`. -/
def ffiTrade (t : MatchingEngine.Trade) : FfiTrade := ⟨t.makerId, t.takerId, Int64.ofInt t.price, t.qty⟩

namespace OrderBookV2Ffi

/-- `add`. The book clears the buffer before it puts trades into it. -/
def add (b : OrderBookV2Ffi) (req : FfiOrderRequest) : Except Abort (OrderBookV2Ffi × List FfiTrade) := do
  let r ← returned (b.inner.add req.native)
  let b : OrderBookV2Ffi := ⟨r.book, r.trades⟩
  match r.thrown with
  | none => .ok (b, b.tradesScratch.map ffiTrade)
  | some e => .error (.thrown e)

/-- `cancel`. -/
def cancel (b : OrderBookV2Ffi) (id : UInt64) : Except Abort (OrderBookV2Ffi × Bool) := do
  let (found, inner) ← returned (b.inner.cancel id)
  .ok ({ b with inner }, found)

/-- `reduce`. -/
def reduce (b : OrderBookV2Ffi) (id delta : UInt64) : Except Abort (OrderBookV2Ffi × Bool) := do
  let (found, inner) ← returned (b.inner.reduce id delta)
  .ok ({ b with inner }, found)

/-- `best_bid`. -/
def bestBid (b : OrderBookV2Ffi) : Except Abort Int64 := do
  let price ← returned b.inner.bestBid
  .ok (Int64.ofInt price)

/-- `best_ask`. -/
def bestAsk (b : OrderBookV2Ffi) : Except Abort Int64 := do
  let price ← returned b.inner.bestAsk
  .ok (Int64.ofInt price)

/-- `has_bid`. -/
def hasBid (b : OrderBookV2Ffi) : Bool := b.inner.hasBid

/-- `has_ask`. -/
def hasAsk (b : OrderBookV2Ffi) : Bool := b.inner.hasAsk

/-- `depth`. -/
def depth (b : OrderBookV2Ffi) : ℕ := b.inner.depth

end OrderBookV2Ffi

/-- `make_order_book`. -/
def makeOrderBook (arenaCapacity : UInt32) (initialWindow : Int64) : OrderBookV2Ffi :=
  { inner := .new arenaCapacity initialWindow.toInt }

/-! ### The crate -/

/-- `enum Side`. -/
inductive Side where
  /-- `Buy`. -/
  | buy
  /-- `Sell`. -/
  | sell
  deriving DecidableEq

/-- `enum OrderType`. -/
inductive OrderType where
  /-- `Limit`. -/
  | limit
  /-- `Market`. -/
  | market
  /-- `Cancel`. -/
  | cancel
  deriving DecidableEq

/-- `struct OrderRequest`. -/
structure OrderRequest where
  /-- `id`. -/
  id : UInt64
  /-- `side`. -/
  side : Side
  /-- `kind`. -/
  kind : OrderType
  /-- `price`. -/
  price : Int64
  /-- `qty`. -/
  qty : UInt64
  deriving DecidableEq

/-- `struct Trade`. -/
structure Trade where
  /-- `maker_id`. -/
  makerId : UInt64
  /-- `taker_id`. -/
  takerId : UInt64
  /-- `price`. -/
  price : Int64
  /-- `qty`. -/
  qty : UInt64
  deriving DecidableEq

/-- `struct MatchingEngine`. -/
structure Engine where
  /-- `inner`. -/
  inner : OrderBookV2Ffi

/-- `ffi_req`. -/
def OrderRequest.ffi (req : OrderRequest) : FfiOrderRequest where
  id := req.id
  side := match req.side with
    | .buy => .buy
    | .sell => .sell
  kind := match req.kind with
    | .limit => .limit
    | .market => .market
    | .cancel => .cancel
  price := req.price
  qty := req.qty

/-- `|t: FfiTrade| Trade { .. }`. -/
def Trade.ofFfi (t : FfiTrade) : Trade := ⟨t.makerId, t.takerId, t.price, t.qty⟩

namespace Engine

/-- `MatchingEngine::new`. -/
def new (arenaCapacity : UInt32) (initialWindow : Int64) : Engine := ⟨makeOrderBook arenaCapacity initialWindow⟩

/-- `MatchingEngine::add`. -/
def add (e : Engine) (req : OrderRequest) : Except Abort (Engine × List Trade) := do
  let (inner, trades) ← e.inner.add req.ffi
  .ok (⟨inner⟩, trades.map Trade.ofFfi)

/-- `MatchingEngine::cancel`. -/
def cancel (e : Engine) (id : UInt64) : Except Abort (Engine × Bool) := do
  let (inner, found) ← e.inner.cancel id
  .ok (⟨inner⟩, found)

/-- `MatchingEngine::reduce`. -/
def reduce (e : Engine) (id delta : UInt64) : Except Abort (Engine × Bool) := do
  let (inner, found) ← e.inner.reduce id delta
  .ok (⟨inner⟩, found)

end Engine

/-! ### Calls and what they show -/

/-- A call of the crate's engine. -/
inductive EngineCall where
  /-- `add`. -/
  | add (req : OrderRequest)
  /-- `cancel`. -/
  | cancel (id : UInt64)
  /-- `reduce`. -/
  | reduce (id delta : UInt64)
  deriving DecidableEq

/-- What it returns. -/
inductive Reply where
  /-- The trades of an `add`. -/
  | trades (ts : List Trade)
  /-- The result of a `cancel` or a `reduce`. -/
  | found (b : Bool)
  deriving DecidableEq

/-- What the observers of the crate's engine return. -/
structure Seen where
  /-- `has_bid()`. -/
  hasBid : Bool
  /-- `has_ask()`. -/
  hasAsk : Bool
  /-- `best_bid()`. -/
  bestBid : Int64
  /-- `best_ask()`. -/
  bestAsk : Int64
  /-- `depth()`. -/
  depth : ℕ
  deriving DecidableEq

namespace Engine

/-- One call. -/
def call (e : Engine) : EngineCall → Except Abort (Engine × Reply)
  | .add req => do
    let (e, ts) ← e.add req
    .ok (e, .trades ts)
  | .cancel id => do
    let (e, found) ← e.cancel id
    .ok (e, .found found)
  | .reduce id delta => do
    let (e, found) ← e.reduce id delta
    .ok (e, .found found)

/-- The observers. -/
def see (e : Engine) : Except Abort Seen := do
  let bestBid ← e.inner.bestBid
  let bestAsk ← e.inner.bestAsk
  .ok { hasBid := e.inner.hasBid, hasAsk := e.inner.hasAsk, bestBid, bestAsk, depth := e.inner.depth }

/-- What a sequence of calls shows: the reply to each, and the observers after it. -/
def shows (e : Engine) : List EngineCall → Except Abort (List (Reply × Seen))
  | [] => .ok []
  | call :: calls => do
    let (e, reply) ← e.call call
    let seen ← e.see
    let rest ← e.shows calls
    .ok ((reply, seen) :: rest)

end Engine

/-! ### What they stand for -/

/-- The order, as the reference book has it. -/
def OrderRequest.toRequest (req : OrderRequest) : MatchingEngine.OrderRequest where
  id := req.id
  side := match req.side with
    | .buy => .buy
    | .sell => .sell
  type := match req.kind with
    | .limit => .limit
    | .market => .market
    | .cancel => .cancel
  price := req.price.toInt
  qty := req.qty

/-- The call, on the reference book. -/
def EngineCall.toCall : EngineCall → Call
  | .add req => .add req.toRequest
  | .cancel id => .cancel id
  | .reduce id delta => .reduce id delta

/-- The trade, as the reference book has it. -/
def Trade.toTrade (t : Trade) : MatchingEngine.Trade := ⟨t.makerId, t.takerId, t.price.toInt, t.qty⟩

/-- The reply, as an answer of the reference book. -/
def Reply.toAnswer : Reply → Answer
  | .trades ts => .trades (ts.map Trade.toTrade)
  | .found b => .found b

/-- What is seen, as the reference book shows it. -/
def Seen.toView (v : Seen) : View := ⟨v.hasBid, v.hasAsk, v.bestBid.toInt, v.bestAsk.toInt, v.depth⟩

/-! ### Across the bridge and back -/

variable {e : Engine} {c : Layout} {op : EngineCall} {ops : List EngineCall} {lo hi : ℤ}

/-- An order that is translated twice is the order that was meant. -/
theorem native_ffi (req : OrderRequest) : req.ffi.native = req.toRequest := by
  obtain ⟨id, side, kind, price, qty⟩ := req
  cases side <;> cases kind <;> rfl

/-- A trade comes back as it was, where its price is an `int64_t`. -/
theorem toTrade_ofFfi {t : MatchingEngine.Trade} (h : InI64 t.price) : (Trade.ofFfi (ffiTrade t)).toTrade = t := by
  rw [Trade.toTrade, Trade.ofFfi, ffiTrade, toInt_ofInt h]

theorem trades_back {ts : List MatchingEngine.Trade} (h : ∀ t ∈ ts, InI64 t.price) :
    ((ts.map ffiTrade).map Trade.ofFfi).map Trade.toTrade = ts := by
  rw [List.map_map, List.map_map]
  exact (List.map_congr_left (g := id) fun t ht => toTrade_ofFfi (h t ht)).trans (List.map_id ts)

/-- No order of the crate asks what FOK asks. -/
theorem callWith_covers (b : Book) (op : EngineCall) :
    b.callWith Book.coversWrapping op.toCall = b.callWith Book.covers op.toCall := by
  cases op with
  | add req =>
    obtain ⟨id, side, kind, price, qty⟩ := req
    cases kind <;> rfl
  | cancel id => rfl
  | reduce id delta => rfl

/-- The price of an order of the crate is an `int64_t`. -/
theorem EngineCall.priced (op : EngineCall) (req : MatchingEngine.OrderRequest) (h : op.toCall = .add req) :
    InI64 req.price := by
  cases op with
  | add req' =>
    obtain rfl := Call.add.inj h
    exact inI64_toInt req'.price
  | cancel id => cases h
  | reduce id delta => cases h

/-! ### What holds of the crate's engine -/

/-- **The book behind the bridge** has the layout `c`, and its prices can be sent across. -/
structure Holds (e : Engine) (c : Layout) : Prop where
  /-- The representation. -/
  settled : Settled e.inner.inner c
  /-- The index names every order. -/
  tracked : Tracked e.inner.inner c
  /-- The prices. -/
  priced : Priced (-2 ^ 63) (2 ^ 63 - 1) (e.inner.inner.bookOf c)

theorem holds_new (capacity : UInt32) (window : Int64) : Holds (Engine.new capacity window) fun _ => [] :=
  ⟨settled_new _ _, tracked_new _ _, fun side o ho => by cases side <;> cases ho⟩

/-- What the engine makes of what the book makes of a call. -/
theorem Engine.call_eq {r : CallResult} (hr : e.inner.inner.call op.toCall = .ok r) (hthrown : r.thrown = none)
    (hpriced : ∀ ts, r.answer = .trades ts → ∀ t ∈ ts, InI64 t.price) :
    ∃ e' reply, e.call op = .ok (e', reply) ∧ e'.inner.inner = r.book ∧ reply.toAnswer = r.answer := by
  cases op with
  | add req =>
    obtain ⟨a, ha, hr⟩ := bind_eq_ok.mp hr
    obtain rfl := Except.ok.inj hr
    rw [← native_ffi] at ha
    refine ⟨⟨⟨a.book, a.trades⟩⟩, .trades ((a.trades.map ffiTrade).map Trade.ofFfi), ?_, rfl, ?_⟩
    · rw [Engine.call, Engine.add, OrderBookV2Ffi.add, ha]
      dsimp only at hthrown
      simp only [returned, ok_bind, hthrown]
    · exact congrArg Answer.trades (trades_back (hpriced _ rfl))
  | cancel id =>
    obtain ⟨⟨found, s⟩, ha, hr⟩ := bind_eq_ok.mp hr
    obtain rfl := Except.ok.inj hr
    refine ⟨⟨{ e.inner with inner := s }⟩, .found found, ?_, rfl, rfl⟩
    rw [Engine.call, Engine.cancel, OrderBookV2Ffi.cancel, ha]
    rfl
  | reduce id delta =>
    obtain ⟨⟨found, s⟩, ha, hr⟩ := bind_eq_ok.mp hr
    obtain rfl := Except.ok.inj hr
    refine ⟨⟨{ e.inner with inner := s }⟩, .found found, ?_, rfl, rfl⟩
    rw [Engine.call, Engine.reduce, OrderBookV2Ffi.reduce, ha]
    rfl

/-- **One call** is that on the reference book. -/
theorem Holds.call {P : OrderBookV2 → Prop} (h : Holds e c)
    (hrun : e.inner.inner.Returning P ((op :: ops).map EngineCall.toCall)) :
    ∃ e' reply c', e.call op = .ok (e', reply) ∧ Holds e' c' ∧
      (reply.toAnswer, e'.inner.inner.bookOf c') = (e.inner.inner.bookOf c).callWith Book.covers op.toCall ∧
      e'.inner.inner.Returning P (ops.map EngineCall.toCall) := by
  obtain ⟨-, r, c', hr, hcalled, hthrown, hrest⟩ := h.settled.returning_cons h.tracked hrun
  have hreturned := hcalled.returned hthrown
  rw [callWith_covers] at hreturned
  obtain ⟨hanswer, hbook⟩ := Prod.mk.inj hreturned
  have hpriced : ∀ ts, r.answer = .trades ts → ∀ t ∈ ts, InI64 t.price := by
    intro ts hts t ht
    rw [hanswer] at hts
    cases op with
    | add req =>
      obtain rfl := Answer.trades.inj hts
      have := h.priced.trades ht
      rw [InI64]
      omega
    | cancel id => cases hts
    | reduce id delta => cases hts
  obtain ⟨e', reply, hcall, hinner, hreply⟩ := Engine.call_eq hr hthrown hpriced
  refine ⟨e', reply, c', hcall, ⟨hinner ▸ hcalled.settled, hinner ▸ hcalled.tracked, ?_⟩, ?_, hinner ▸ hrest⟩
  · rw [hinner, hbook]
    refine h.priced.callWith _ fun req hreq _ => ?_
    have := op.priced req hreq
    rw [InI64] at this
    omega
  · rw [hinner, hreply]
    exact hreturned

/-- **The observers** show the reference book. -/
theorem Holds.see (h : Holds e c) : ∃ seen, e.see = .ok seen ∧ seen.toView = (e.inner.inner.bookOf c).view := by
  have hbuy := h.priced.inI64_best (by decide) (by decide) .buy
  have hsell := h.priced.inI64_best (by decide) (by decide) .sell
  rw [Engine.see, OrderBookV2Ffi.bestBid, OrderBookV2Ffi.bestAsk, h.settled.bestBid_eq, h.settled.bestAsk_eq]
  refine ⟨_, rfl, ?_⟩
  rw [Seen.toView]
  dsimp only
  rw [toInt_ofInt hbuy, toInt_ofInt hsell, Book.view, ← h.tracked.depth h.settled]
  simp only [OrderBookV2Ffi.hasBid, OrderBookV2Ffi.hasAsk, OrderBookV2Ffi.depth, h.settled.hasBid_eq, h.settled.hasAsk_eq]

/-- **A run of calls** shows what the reference book shows. -/
theorem Holds.shows {P : OrderBookV2 → Prop} (h : Holds e c)
    (hrun : e.inner.inner.Returning P (ops.map EngineCall.toCall)) :
    ∃ shown, e.shows ops = .ok shown ∧
      shown.map (fun s => (s.1.toAnswer, s.2.toView)) = (e.inner.inner.bookOf c).shows (ops.map EngineCall.toCall) := by
  induction ops generalizing e c with
  | nil => exact ⟨[], rfl, rfl⟩
  | cons op ops ih =>
    obtain ⟨e', reply, c', hcall, hholds, hreturned, hrest⟩ := h.call hrun
    obtain ⟨seen, hsee, hview⟩ := hholds.see
    obtain ⟨shown, hshown, hall⟩ := ih hholds hrest
    refine ⟨(reply, seen) :: shown, ?_, ?_⟩
    · rw [Engine.shows, hcall, ok_bind]
      dsimp only
      rw [hsee, ok_bind, hshown]
      rfl
    · rw [List.map_cons, List.map_cons, Book.shows, Book.showsWith, ← hreturned, hall, hview]
      rfl

/-! ### Within a band of prices -/

/-- The call adds an order that may rest. -/
def EngineCall.isLimit : EngineCall → Bool
  | .add req => req.kind = .limit
  | .cancel _ | .reduce _ _ => false

/-- The id that a call submits. -/
def EngineCall.newId : EngineCall → Option UInt64
  | .add req => if req.kind = .cancel then none else some req.id
  | .cancel _ | .reduce _ _ => none

/-- The price of an order that may rest is from `lo` to `hi`. -/
def EngineCall.Within (lo hi : ℤ) : EngineCall → Prop
  | .add req => req.kind = .limit → lo ≤ req.price.toInt ∧ req.price.toInt ≤ hi
  | .cancel _ | .reduce _ _ => True

instance (lo hi : ℤ) : (op : EngineCall) → Decidable (op.Within lo hi)
  | .add req => inferInstanceAs (Decidable (req.kind = .limit → lo ≤ req.price.toInt ∧ req.price.toInt ≤ hi))
  | .cancel _ | .reduce _ _ => inferInstanceAs (Decidable True)

theorem mayRest_toCall (op : EngineCall) : op.toCall.mayRest = op.isLimit := by
  cases op with
  | add req =>
    obtain ⟨id, side, kind, price, qty⟩ := req
    cases kind <;> rfl
  | cancel id => rfl
  | reduce id delta => rfl

theorem newId_toCall (op : EngineCall) : op.toCall.newId = op.newId := by
  cases op with
  | add req =>
    obtain ⟨id, side, kind, price, qty⟩ := req
    cases kind <;> rfl
  | cancel id => rfl
  | reduce id delta => rfl

theorem EngineCall.Within.toCall (h : op.Within lo hi) : op.toCall.Within lo hi := by
  cases op with
  | add req =>
    refine ⟨inI64_toInt req.price, fun htype => h ?_⟩
    obtain ⟨id, side, kind, price, qty⟩ := req
    cases kind with
    | limit => rfl
    | market | cancel => rcases htype with htype | htype <;> cases htype
  | cancel id => trivial
  | reduce id delta => trivial

/-- **The crate's engine is the reference book**: where the ids that are submitted are different from one another, no more
limit orders are added than the arena has cells, and their prices are in a band that fits on the axis, no call ends the
process, and every reply and all that the observers show is what the reference book shows. -/
theorem engine_shows {capacity : UInt32} {window : Int64} (hroom : HasRoom lo hi window.toInt)
    (hops : ∀ op ∈ ops, op.Within lo hi) (hids : (ops.filterMap EngineCall.newId).Nodup)
    (hcap : ops.countP EngineCall.isLimit ≤ capacity.toNat) :
    ∃ shown, (Engine.new capacity window).shows ops = .ok shown ∧
      shown.map (fun s => (s.1.toAnswer, s.2.toView)) = Book.empty.shows (ops.map EngineCall.toCall) := by
  have hrun : (OrderBookV2.new capacity window.toInt).Returning (Confined lo hi) (ops.map EngineCall.toCall) := by
    refine (settled_new _ _).returning_within (tracked_new _ _) (confined_new lo hi _ _) hroom (fun op hop => ?_) ?_
      (fun id _ hid => by cases hid) ?_
    · obtain ⟨op', hop', rfl⟩ := List.mem_map.mp hop
      exact (hops op' hop').toCall
    · rwa [List.filterMap_map, show Call.newId ∘ EngineCall.toCall = EngineCall.newId from funext newId_toCall]
    · rw [List.countP_map, show Call.mayRest ∘ EngineCall.toCall = EngineCall.isLimit from funext mayRest_toCall]
      exact (Nat.zero_add _).trans_le hcap
  exact (holds_new capacity window).shows hrun

/-- Two orders at one price, a market order that takes one of them and a part of the other, and two cancels. -/
theorem engine_shows_market :
    ∃ shown, (Engine.new 2 8).shows [.add ⟨1, .sell, .limit, 100, 5⟩, .add ⟨2, .sell, .limit, 100, 5⟩,
        .add ⟨3, .buy, .market, 0, 7⟩, .add ⟨2, .buy, .cancel, 0, 0⟩, .cancel 2] = .ok shown ∧
      shown.map (fun s => (s.1.toAnswer, s.2.toView)) =
        [(.trades [], ⟨false, true, 0, 100, 1⟩), (.trades [], ⟨false, true, 0, 100, 2⟩),
          (.trades [⟨1, 3, 100, 5⟩, ⟨2, 3, 100, 2⟩], ⟨false, true, 0, 100, 1⟩), (.trades [], ⟨false, false, 0, 0, 0⟩),
          (.found false, ⟨false, false, 0, 0, 0⟩)] :=
  engine_shows (show HasRoom 100 100 (8 : Int64).toInt from ⟨by decide, by decide, by decide, by decide⟩) (by decide)
    (by decide) (by decide)

end MatchingEngine.Sidecar.Bridge
