import MatchingEngine.Core.Order
import MatchingEngine.Foundation.PriceTime

/-!
# The reference book

What an order book is for, with nothing of how the engine keeps it: on each side one list
of resting orders, best price first and oldest first at one price. An incoming order
fills greedily from the front of the other side. Only Limit rests its remainder; PostOnly
rests if it would not cross; FOK does nothing unless it can be filled completely.

The test that FOK makes is a parameter (`addWith`). The plain book compares quantities as
natural numbers (`covers`); `coversWrapping` is what a program answers that sums them in 64
bits.
-/

namespace MatchingEngine

open Foundation

/-- The resting orders, best first. -/
@[ext] structure Book where
  /-- The buy orders. -/
  bids : List (Order ℤ OrderId)
  /-- The sell orders. -/
  asks : List (Order ℤ OrderId)
  deriving DecidableEq, Repr

/-- A price strictly better than another one, for the orders of a side. -/
def Side.ahead : Side → ℤ → ℤ → Bool
  | .buy, p, q => q < p
  | .sell, p, q => p < q

/-- The resting prices that an incoming order trades at. -/
def OrderRequest.accepts (taker : OrderRequest) (p : ℤ) : Bool :=
  taker.type = .market ||
    match taker.side with
    | .buy => p ≤ taker.price
    | .sell => taker.price ≤ p

/-- What an incoming order leaves to rest. -/
def OrderRequest.resting (req : OrderRequest) (qty : ℕ) : Order ℤ OrderId := ⟨req.id, req.price, qty⟩

/-- A fill, as the trade that is reported. -/
def toTrade (takerId : OrderId) (f : Fill ℤ OrderId) : Trade :=
  { makerId := f.maker, takerId, price := f.price, qty := UInt64.ofNat f.qty }

namespace Book

/-- The book without orders. -/
def empty : Book := ⟨[], []⟩

/-- One side. -/
def side (b : Book) : Side → List (Order ℤ OrderId)
  | .buy => b.bids
  | .sell => b.asks

/-- A book with one side replaced. -/
def withSide (b : Book) : Side → List (Order ℤ OrderId) → Book
  | .buy, os => { b with bids := os }
  | .sell, os => { b with asks := os }

/-- All resting orders. -/
def orders (b : Book) : List (Order ℤ OrderId) := b.bids ++ b.asks

/-- The ids that rest. -/
def ids (b : Book) : List OrderId := b.orders.map (·.id)

/-- The price of the best order of a side. -/
def best (b : Book) (side : Side) : Option ℤ := (b.side side).head?.map (·.price)

/-- The incoming order would trade on arrival. -/
def crosses (b : Book) (req : OrderRequest) : Bool := (b.best req.side.opposite).any req.accepts

/-- The quantity at acceptable prices is enough for the incoming order. -/
def covers (b : Book) (req : OrderRequest) : Bool :=
  req.qty.toNat ≤ totalQty ((b.side req.side.opposite).filter fun o => req.accepts o.price)

/-- The same question, answered with sums of 64 bits. -/
def coversWrapping (b : Book) (req : OrderRequest) : Bool :=
  coversWrapped 64 req.accepts req.qty.toNat 0 (b.side req.side.opposite)

/-- An order comes to rest. -/
def join (b : Book) (req : OrderRequest) (qty : ℕ) : Book :=
  b.withSide req.side (enqueue req.side.ahead (req.resting qty) (b.side req.side))

/-- What the incoming order takes from the other side. -/
def take (b : Book) (req : OrderRequest) : Filled ℤ OrderId :=
  fill req.accepts req.qty.toNat (b.side req.side.opposite)

/-- The book after the incoming order has taken what it can. -/
def taken (b : Book) (req : OrderRequest) : Book := b.withSide req.side.opposite (b.take req).rest

/-- The trades of an incoming order. -/
def trades (b : Book) (req : OrderRequest) : List Trade := (b.take req).fills.map (toTrade req.id)

/-- `cancel`. -/
def cancel (b : Book) (id : OrderId) : Bool × Book :=
  (decide (id ∈ b.ids), ⟨remove id b.bids, remove id b.asks⟩)

/-- `reduce`. -/
def reduce (b : Book) (id : OrderId) (delta : Quantity) : Bool × Book :=
  (decide (id ∈ b.ids), ⟨reduceBy id delta.toNat b.bids, reduceBy id delta.toNat b.asks⟩)

/-- `add`, with the test that FOK makes. -/
def addWith (covers : Book → OrderRequest → Bool) (b : Book) (req : OrderRequest) : List Trade × Book :=
  match req.type with
  | .cancel => ([], (b.cancel req.id).2)
  | .postOnly => ([], if b.crosses req then b else b.join req req.qty.toNat)
  | .fok => if covers b req then (b.trades req, b.taken req) else ([], b)
  | .limit =>
    (b.trades req, if 0 < (b.take req).left then (b.taken req).join req (b.take req).left else b.taken req)
  | .market | .ioc => (b.trades req, b.taken req)

/-- `add` of the plain book. -/
def add : Book → OrderRequest → List Trade × Book := addWith covers

end Book

/-! ### Calls and what they show -/

/-- A call on a book. -/
inductive Call where
  /-- `add`. -/
  | add (req : OrderRequest)
  /-- `cancel`. -/
  | cancel (id : OrderId)
  /-- `reduce`. -/
  | reduce (id : OrderId) (delta : Quantity)
  deriving DecidableEq, Repr

/-- What a call returns. -/
inductive Answer where
  /-- The trades of an `add`. -/
  | trades (ts : List Trade)
  /-- The result of a `cancel` or a `reduce`. -/
  | found (b : Bool)
  deriving DecidableEq, Repr

/-- What the observers of a book return. -/
structure View where
  /-- `has_bid()`. -/
  hasBid : Bool
  /-- `has_ask()`. -/
  hasAsk : Bool
  /-- `best_bid()`. -/
  bestBid : ℤ
  /-- `best_ask()`. -/
  bestAsk : ℤ
  /-- `depth()`. -/
  depth : ℕ
  deriving DecidableEq, Repr

namespace Book

/-- The observers. A side without orders shows the price `0`. -/
def view (b : Book) : View where
  hasBid := (b.best .buy).isSome
  hasAsk := (b.best .sell).isSome
  bestBid := (b.best .buy).getD 0
  bestAsk := (b.best .sell).getD 0
  depth := b.orders.length

/-- One call. -/
def callWith (covers : Book → OrderRequest → Bool) (b : Book) : Call → Answer × Book
  | .add req => (.trades (b.addWith covers req).1, (b.addWith covers req).2)
  | .cancel id => (.found (b.cancel id).1, (b.cancel id).2)
  | .reduce id delta => (.found (b.reduce id delta).1, (b.reduce id delta).2)

/-- What a sequence of calls shows: the answer of each, and the observers after it. -/
def showsWith (covers : Book → OrderRequest → Bool) (b : Book) : List Call → List (Answer × View)
  | [] => []
  | c :: cs => ((b.callWith covers c).1, (b.callWith covers c).2.view) :: (b.callWith covers c).2.showsWith covers cs

/-- What a sequence of calls on the plain book shows. -/
def shows : Book → List Call → List (Answer × View) := showsWith covers

end Book

end MatchingEngine
