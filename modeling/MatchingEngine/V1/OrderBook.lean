import MatchingEngine.Core.Reference
import MatchingEngine.Foundation.LevelMap
import Mathlib.Logic.Function.Basic

/-!
# The first order book

`cpp/include/order_book.h` and `cpp/src/order_book.cpp`: two ordered maps from prices to
deques of orders, and a hash map from ids to where they rest.

Its prices are doubles. The prices looked at here are integers, and `toDouble` is the
conversion from an `int64_t`: the nearest integer with 53 significant bits. Doubles that are
integers compare as integers do, so a price is an `ℤ`. `timestamp_ns` is never read, and is
left out; an `Order` then has the fields of an `OrderRequest`.
-/

namespace MatchingEngine.V1

open Foundation

/-! ### Doubles that are integers -/

/-- A natural number rounded to 53 significant bits, to even in a tie. -/
def roundTo53 (n : ℕ) : ℕ :=
  let ulp := 2 ^ (n.log2 - 52)
  let q := n / ulp
  let r := n % ulp
  (if ulp < 2 * r ∨ (2 * r = ulp ∧ q % 2 = 1) then q + 1 else q) * ulp

/-- `static_cast<double>` of an `int64_t`. -/
def toDouble (z : ℤ) : ℤ := z.sign * roundTo53 z.natAbs

/-- The integer is a double. -/
def IsDouble (z : ℤ) : Prop := ∃ m e : ℕ, m ≤ 2 ^ 53 ∧ z.natAbs = m * 2 ^ e

/-! ### The book -/

/-- `index_`: the side and the price of an id. -/
abbrev Index := OrderId → Option (Side × ℤ)

/-- The members of `OrderBook`. -/
structure OrderBook where
  /-- `bids_`, highest price first. -/
  bids : LevelMap ℤ OrderRequest
  /-- `asks_`, lowest price first. -/
  asks : LevelMap ℤ OrderRequest
  /-- `index_`. -/
  index : Index

namespace OrderBook

/-- A new book. -/
def new : OrderBook := ⟨[], [], fun _ => none⟩

/-- The map of a side. -/
def levels (b : OrderBook) : Side → LevelMap ℤ OrderRequest
  | .buy => b.bids
  | .sell => b.asks

/-- A book with the map of a side replaced. -/
def withLevels (b : OrderBook) : Side → LevelMap ℤ OrderRequest → OrderBook
  | .buy, m => { b with bids := m }
  | .sell, m => { b with asks := m }

/-- `bids_[price].push_back(taker); index_[taker.id] = …`, or the same with `asks_`. -/
def rest (b : OrderBook) (taker : OrderRequest) : OrderBook :=
  { b.withLevels taker.side (LevelMap.pushBack taker.side.ahead taker.price taker (b.levels taker.side)) with
    index := Function.update b.index taker.id (some (taker.side, taker.price)) }

/-- How far `match_against` gets with a queue or a map. -/
structure Swept (α : Type) where
  /-- The trades. -/
  trades : List Trade
  /-- The taker, with what is left of it. -/
  taker : OrderRequest
  /-- The queue or the map. -/
  left : α
  /-- `index`. -/
  index : Index

/-- The inner loop of `match_against`. A maker that keeps a remainder ends it, since then nothing
is left of the taker. -/
def fillQueue (bestOpp : ℤ) : List OrderRequest → OrderRequest → Index → Swept (List OrderRequest)
  | [], taker, index => ⟨[], taker, [], index⟩
  | maker :: queue, taker, index =>
    if 0 < taker.qty then
      let fill := min taker.qty maker.qty
      let trade : Trade := { makerId := maker.id, takerId := taker.id, price := bestOpp, qty := fill }
      let taker := { taker with qty := taker.qty - fill }
      if maker.qty - fill = 0 then
        let r := fillQueue bestOpp queue taker (Function.update index maker.id none)
        { r with trades := trade :: r.trades }
      else ⟨[trade], taker, { maker with qty := maker.qty - fill } :: queue, index⟩
    else ⟨[], taker, maker :: queue, index⟩

/-- The price check of `match_against`. -/
def beyondLimit (taker : OrderRequest) (bestOpp : ℤ) : Bool :=
  taker.type ≠ .market &&
    match taker.side with
    | .buy => taker.price < bestOpp
    | .sell => bestOpp < taker.price

/-- `match_against`. A queue that does not run empty ends it, since then nothing is left of the taker. -/
def matchAgainst : LevelMap ℤ OrderRequest → OrderRequest → Index → Swept (LevelMap ℤ OrderRequest)
  | [], taker, index => ⟨[], taker, [], index⟩
  | (bestOpp, queue) :: opp, taker, index =>
    if 0 < taker.qty then
      if beyondLimit taker bestOpp then ⟨[], taker, (bestOpp, queue) :: opp, index⟩
      else
        let r := fillQueue bestOpp queue taker index
        if r.left = [] then
          let r' := matchAgainst opp r.taker r.index
          { r' with trades := r.trades ++ r'.trades }
        else { r with left := (bestOpp, r.left) :: opp }
    else ⟨[], taker, (bestOpp, queue) :: opp, index⟩

/-- `match`: the trades, the taker and the book afterwards. -/
def match_ (b : OrderBook) (taker : OrderRequest) : List Trade × OrderRequest × OrderBook :=
  let r := matchAgainst (b.levels taker.side.opposite) taker b.index
  (r.trades, r.taker, { b.withLevels taker.side.opposite r.left with index := r.index })

/-- Where the loop of `can_fully_fill` breaks. -/
def outOfReach (taker : OrderRequest) (price : ℤ) : Bool :=
  match taker.side with
  | .buy => taker.price < price
  | .sell => price < taker.price

/-- The loop of `can_fully_fill`. -/
def fillable (taker : OrderRequest) : LevelMap ℤ OrderRequest → Quantity → Bool
  | [], _ => false
  | (price, queue) :: m, available =>
    if outOfReach taker price then false
    else
      let available := queue.foldl (fun available ord => available + ord.qty) available
      if taker.qty ≤ available then true else fillable taker m available

/-- `can_fully_fill`. -/
def canFullyFill (b : OrderBook) (taker : OrderRequest) : Bool := fillable taker (b.levels taker.side.opposite) 0

/-- `do_cancel` in `cancel`: whether the level exists, and the map without the id. -/
def doCancel (id : OrderId) (price : ℤ) : LevelMap ℤ OrderRequest → Bool × LevelMap ℤ OrderRequest
  | [] => (false, [])
  | (p, queue) :: m =>
    if p = price then
      let q := queue.filter (·.id ≠ id)
      (true, if q = [] then m else (p, q) :: m)
    else ((doCancel id price m).1, (p, queue) :: (doCancel id price m).2)

/-- `cancel`. -/
def cancel (b : OrderBook) (id : OrderId) : Bool × OrderBook :=
  match b.index id with
  | none => (false, b)
  | some (side, price) =>
    let (found, m) := doCancel id price (b.levels side)
    if found then (true, { b.withLevels side m with index := Function.update b.index id none })
    else (false, b.withLevels side m)

/-- `would_cross` in `add`. -/
def wouldCross (b : OrderBook) (taker : OrderRequest) : Bool :=
  match taker.side with
  | .buy => b.asks.head?.any fun l => l.1 ≤ taker.price
  | .sell => b.bids.head?.any fun l => taker.price ≤ l.1

/-- `add`. -/
def add (b : OrderBook) (o : OrderRequest) : List Trade × OrderBook :=
  match o.type with
  | .cancel => ([], (b.cancel o.id).2)
  | .postOnly => if b.wouldCross o then ([], b) else ([], b.rest o)
  | type =>
    if type = .fok ∧ ¬ b.canFullyFill o then ([], b)
    else
      let (trades, taker, b) := b.match_ o
      if type = .limit ∧ 0 < taker.qty then (trades, b.rest taker) else (trades, b)

/-- `best_bid`. -/
def bestBid (b : OrderBook) : ℤ := (b.bids.head?.map (·.1)).getD 0

/-- `best_ask`. -/
def bestAsk (b : OrderBook) : ℤ := (b.asks.head?.map (·.1)).getD 0

/-- `depth`. -/
def depth (b : OrderBook) : ℕ := (b.bids.map (·.2.length)).sum + (b.asks.map (·.2.length)).sum

end OrderBook

/-! ### Calls -/

/-- A call that both books have. -/
inductive Op where
  /-- `add`. -/
  | add (req : OrderRequest)
  /-- `cancel`. -/
  | cancel (id : OrderId)
  deriving DecidableEq, Repr

/-- The call on the second book. -/
def Op.toCall : Op → Call
  | .add req => .add req
  | .cancel id => .cancel id

/-- The observers that both books have: `best_bid`, `best_ask` and `depth`. -/
structure View where
  /-- `best_bid()`. -/
  bestBid : ℤ
  /-- `best_ask()`. -/
  bestAsk : ℤ
  /-- `depth()`. -/
  depth : ℕ
  deriving DecidableEq, Repr

/-- The observers of the first book. -/
def OrderBook.view (b : OrderBook) : View := ⟨b.bestBid, b.bestAsk, b.depth⟩

/-- The same observers of the second one. -/
def View.ofV2 (v : MatchingEngine.View) : View := ⟨v.bestBid, v.bestAsk, v.depth⟩

/-- One call on the first book, which takes the price as a double. -/
def OrderBook.call (b : OrderBook) : Op → Answer × OrderBook
  | .add req => (.trades (b.add { req with price := toDouble req.price }).1,
      (b.add { req with price := toDouble req.price }).2)
  | .cancel id => (.found (b.cancel id).1, (b.cancel id).2)

/-- What a sequence of calls on the first book shows. -/
def OrderBook.shows (b : OrderBook) : List Op → List (Answer × View)
  | [] => []
  | op :: ops => ((b.call op).1, (b.call op).2.view) :: (b.call op).2.shows ops

end MatchingEngine.V1
