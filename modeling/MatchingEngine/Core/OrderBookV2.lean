import MatchingEngine.Core.FlatHashMapLaws
import MatchingEngine.Core.Order

/-!
# The order book

`cpp/include/order_book_v2.h` and `cpp/src/order_book_v2.cpp`: a shared array of price
levels, intrusive FIFO lists of nodes that live in an arena with a free list, a hash
index from ids to nodes, and two cursors to the best levels.

A call ends in one of three ways, and the definitions keep them apart. It may return; it
may throw, and then the book is left as the code leaves it (memory is taken to suffice); or it may do what the
language leaves undefined (`Ub`): a signed overflow in a price computation, an array
access out of bounds, or a loop that does not end. The last is why the two loops of
`match` carry a number of steps. `Invariant.lean` shows that of the three only the
overflow can happen.
-/

namespace MatchingEngine

/-- What a call may do that the language gives no meaning to. -/
inductive Ub where
  /-- Signed overflow. -/
  | overflow
  /-- An array access out of bounds. -/
  | outOfBounds
  /-- A loop that does not end. -/
  | diverges
  deriving DecidableEq, Repr

/-- The exceptions the book throws. -/
inductive Exn where
  /-- `std::runtime_error`, with its text. -/
  | runtimeError (what : String)
  /-- `std::length_error`, from a vector asked for a size it cannot have. -/
  | lengthError
  deriving DecidableEq, Repr

/-- A price computation in `int64_t`. -/
def i64 (x : ℤ) : Except Ub ℤ := if InI64 x then .ok x else .error .overflow

/-- `kNil`. -/
def kNil : ℕ := 2 ^ 32 - 1

/-- `kMaxLevels`. -/
def kMaxLevels : ℕ := 1 <<< 24

/-- `std::vector<PriceLevel>::max_size()`: the size in bytes is a `ptrdiff_t`, and a `PriceLevel` has 16. -/
def maxSize : ℕ := 2 ^ 59 - 1

/-- `static_cast<size_t>` of the window is a size of the level array: a negative one becomes one that is too large. -/
def WindowFits (window : ℤ) : Prop := 0 ≤ window ∧ window ≤ maxSize

instance (window : ℤ) : Decidable (WindowFits window) := inferInstanceAs (Decidable (_ ∧ _))

/-- `struct Node`: an order in the arena. -/
structure Node where
  /-- `id`. -/
  id : OrderId := 0
  /-- `qty`. -/
  qty : Quantity := 0
  /-- `prev`. -/
  prev : ℕ := kNil
  /-- `next`. -/
  next : ℕ := kNil
  deriving DecidableEq, Repr

/-- `struct PriceLevel`. -/
structure PriceLevel where
  /-- `head`. -/
  head : ℕ := kNil
  /-- `tail`. -/
  tail : ℕ := kNil
  /-- `total_qty`. -/
  totalQty : Quantity := 0
  deriving DecidableEq, Repr

/-- `struct IndexEntry`. -/
structure IndexEntry where
  /-- `side`. -/
  side : Side
  /-- `level_idx`. -/
  levelIdx : ℤ
  /-- `node_idx`. -/
  nodeIdx : ℕ
  deriving DecidableEq, Repr

instance : Inhabited IndexEntry := ⟨⟨.buy, 0, 0⟩⟩

/-- The members of `OrderBookV2`. -/
structure OrderBookV2 where
  /-- `arena_`: what is in each of its `arena_capacity_` cells. -/
  arena : ℕ → Node
  /-- `arena_capacity_`. -/
  arenaCapacity : ℕ
  /-- `arena_bump_`. -/
  arenaBump : ℕ
  /-- `free_list_`, its back first. -/
  freeList : List ℕ
  /-- `levels_`. -/
  levels : List PriceLevel
  /-- `base_`. -/
  base : ℤ
  /-- `have_base_`. -/
  haveBase : Bool
  /-- `initial_window_`. -/
  initialWindow : ℤ
  /-- `level_array_growths_`. -/
  levelArrayGrowths : UInt64
  /-- `best_bid_idx_`. -/
  bestBidIdx : ℤ
  /-- `best_ask_idx_`. -/
  bestAskIdx : ℤ
  /-- `index_`. -/
  index : FlatHashMap IndexEntry

namespace OrderBookV2

/-- The constructor. -/
def new (arenaCapacity : UInt32) (initialWindow : ℤ) : OrderBookV2 where
  arena := fun _ => {}
  arenaCapacity := arenaCapacity.toNat
  arenaBump := 0
  freeList := []
  levels := []
  base := 0
  haveBase := false
  initialWindow := initialWindow
  levelArrayGrowths := 0
  bestBidIdx := -1
  bestAskIdx := -1
  index := (FlatHashMap.new 16).reserve arenaCapacity.toNat

/-! ### Array accesses -/

/-- The level at an index; past the end there are only empty ones. -/
def level (s : OrderBookV2) (i : ℕ) : PriceLevel := s.levels.getD i {}

/-- `levels_[i]`. -/
def levelAt (s : OrderBookV2) (i : ℤ) : Except Ub PriceLevel :=
  if 0 ≤ i ∧ i < s.levels.length then .ok (s.level i.toNat) else .error .outOfBounds

/-- `arena_[i]`. -/
def nodeAt (s : OrderBookV2) (i : ℕ) : Except Ub Node :=
  if i < s.arenaCapacity then .ok (s.arena i) else .error .outOfBounds

/-- A change to `levels_[i]`. -/
def modifyLevel (s : OrderBookV2) (i : ℤ) (f : PriceLevel → PriceLevel) : Except Ub OrderBookV2 := do
  let lvl ← s.levelAt i
  .ok { s with levels := s.levels.set i.toNat (f lvl) }

/-- A change to `arena_[i]`. -/
def modifyNode (s : OrderBookV2) (i : ℕ) (f : Node → Node) : Except Ub OrderBookV2 := do
  let n ← s.nodeAt i
  .ok { s with arena := Function.update s.arena i (f n) }

/-! ### The arena -/

/-- `throw` in `alloc_node`. -/
def arenaExhausted : Exn := .runtimeError "OrderBookV2 arena exhausted - increase arena_capacity"

/-- `alloc_node`. -/
def allocNode (s : OrderBookV2) : Except Exn ℕ × OrderBookV2 :=
  match s.freeList with
  | idx :: rest => (.ok idx, { s with freeList := rest })
  | [] =>
    if s.arenaCapacity ≤ s.arenaBump then (.error arenaExhausted, s)
    else (.ok s.arenaBump, { s with arenaBump := s.arenaBump + 1 })

/-- `free_node`. -/
def freeNode (s : OrderBookV2) (idx : ℕ) : OrderBookV2 := { s with freeList := idx :: s.freeList }

/-! ### The price axis -/

/-- The first `throw` in `ensure_index_for_price`. -/
def rebasePastMaxLevels : Exn := .runtimeError
  ("OrderBookV2::ensure_index_for_price: price implies a rebase past kMaxLevels " ++
    "(price far outside the book's established range — likely a bad/sentinel price, " ++
    "not a real quote; see devlog day 17, found via a real 888888800-tick ITCH order)")

/-- The second one. -/
def growthPastMaxLevels : Exn := .runtimeError
  ("OrderBookV2::ensure_index_for_price: price implies growth past kMaxLevels " ++
    "(price far outside the book's established range — likely a bad/sentinel price, " ++
    "not a real quote; see devlog day 17, found via a real 888888800-tick ITCH order)")

/-- `if (!have_base_) …`. A window that is no size of a vector makes `assign` throw. -/
def openWindow (s : OrderBookV2) (p : ℤ) : Except Ub (Option Exn × OrderBookV2) :=
  if s.haveBase then .ok (none, s)
  else do
    let base ← i64 (p - s.initialWindow.tdiv 2)
    if WindowFits s.initialWindow then
      .ok (none, { s with base := base, haveBase := true
                          levels := List.replicate s.initialWindow.toNat {} })
    else .ok (some .lengthError, { s with base := base })

/-- `if (idx < 0) …`: grow at the front, and shift every cached level number. Those are
below `kMaxLevels` after the shift, so only `base_` can overflow. -/
def growFront (s : OrderBookV2) (p : ℤ) (idx : ℤ) : Except Ub (Except Exn ℤ × OrderBookV2) := do
  let negIdx ← i64 (-idx)
  let shift ← i64 (negIdx + s.initialWindow.tdiv 4)
  let shift ← i64 (shift + 1)
  if kMaxLevels < s.levels.length + shift.toNat then .ok (.error rebasePastMaxLevels, s)
  else do
    let base ← i64 (s.base - shift)
    let idx ← i64 (p - base)
    .ok (.ok idx, { s with
      levelArrayGrowths := s.levelArrayGrowths + 1
      levels := List.replicate shift.toNat {} ++ s.levels
      base := base
      bestBidIdx := if 0 ≤ s.bestBidIdx then s.bestBidIdx + shift else s.bestBidIdx
      bestAskIdx := if 0 ≤ s.bestAskIdx then s.bestAskIdx + shift else s.bestAskIdx
      index := s.index.forEachMut fun e => { e with levelIdx := e.levelIdx + shift } })

/-- `else if (idx >= levels_.size()) …`: grow at the back. -/
def growBack (s : OrderBookV2) (idx : ℤ) : Except Exn ℤ × OrderBookV2 :=
  let newSize := idx.toNat + (s.initialWindow.tdiv 4).toNat + 1
  if kMaxLevels < newSize then (.error growthPastMaxLevels, s)
  else
    (.ok idx, { s with
      levelArrayGrowths := s.levelArrayGrowths + 1
      levels := s.levels ++ List.replicate (newSize - s.levels.length) {} })

/-- `ensure_index_for_price`. -/
def ensureIndexForPrice (s : OrderBookV2) (p : ℤ) : Except Ub (Except Exn ℤ × OrderBookV2) := do
  let (thrown, s) ← s.openWindow p
  match thrown with
  | some e => .ok (.error e, s)
  | none =>
    let idx ← i64 (p - s.base)
    if idx < 0 then s.growFront p idx
    else if (s.levels.length : ℤ) ≤ idx then .ok (s.growBack idx)
    else .ok (.ok idx, s)

/-! ### Resting an order -/

/-- `push_back_order` after its allocation: link the node at the end of its level. -/
def linkBack (s : OrderBookV2) (nodeIdx : ℕ) (levelIdx : ℤ) (side : Side) (req : OrderRequest) :
    Except Ub OrderBookV2 := do
  let s ← s.modifyNode nodeIdx fun _ => { id := req.id, qty := req.qty, prev := kNil, next := kNil }
  let lvl ← s.levelAt levelIdx
  let s ←
    if lvl.tail = kNil then s.modifyLevel levelIdx fun l => { l with head := nodeIdx, tail := nodeIdx }
    else do
      let s ← s.modifyNode lvl.tail fun n => { n with next := nodeIdx }
      let s ← s.modifyNode nodeIdx fun n => { n with prev := lvl.tail }
      s.modifyLevel levelIdx fun l => { l with tail := nodeIdx }
  let s ← s.modifyLevel levelIdx fun l => { l with totalQty := l.totalQty + req.qty }
  .ok { s with index := s.index.set req.id ⟨side, levelIdx, nodeIdx⟩ }

/-- `push_back_order`. -/
def pushBackOrder (s : OrderBookV2) (levelIdx : ℤ) (side : Side) (req : OrderRequest) :
    Except Ub (Option Exn × OrderBookV2) :=
  match s.allocNode with
  | (.error e, s) => .ok (some e, s)
  | (.ok nodeIdx, s) => do
    let s ← s.linkBack nodeIdx levelIdx side req
    .ok (none, s)

/-- The cursor update after an order has come to rest at level `idx`. -/
def noteBest (s : OrderBookV2) (side : Side) (idx : ℤ) : OrderBookV2 :=
  match side with
  | .buy => if s.bestBidIdx < 0 ∨ s.bestBidIdx < idx then { s with bestBidIdx := idx } else s
  | .sell => if s.bestAskIdx < 0 ∨ idx < s.bestAskIdx then { s with bestAskIdx := idx } else s

/-- How both resting paths of `add` end. -/
def rest (s : OrderBookV2) (taker : OrderRequest) : Except Ub (Option Exn × OrderBookV2) := do
  let (idx, s) ← s.ensureIndexForPrice taker.price
  match idx with
  | .error e => .ok (some e, s)
  | .ok idx =>
    let (thrown, s) ← s.pushBackOrder idx taker.side taker
    match thrown with
    | some e => .ok (some e, s)
    | none => .ok (none, s.noteBest taker.side idx)

/-! ### Matching -/

/-- `while (i < levels_.size() && levels_[i].head == kNil) ++i`, with the number of levels
left; `-1` at the end. -/
def scanUp (s : OrderBookV2) : ℕ → ℕ → Except Ub ℤ
  | 0, _ => .ok (-1)
  | left + 1, i => do
    let lvl ← s.levelAt i
    if lvl.head = kNil then s.scanUp left (i + 1) else .ok i

/-- `while (i >= 0 && levels_[i].head == kNil) --i`, from the index below the given one. -/
def scanDown (s : OrderBookV2) : ℕ → Except Ub ℤ
  | 0 => .ok (-1)
  | i + 1 => do
    let lvl ← s.levelAt i
    if lvl.head = kNil then s.scanDown i else .ok i

/-- `best_ask_idx_` moves up to the next level in use. -/
def advanceAsk (s : OrderBookV2) : Except Ub OrderBookV2 := do
  let from_ := (s.bestAskIdx + 1).toNat
  let i ← s.scanUp (s.levels.length - from_) from_
  .ok { s with bestAskIdx := i }

/-- `best_bid_idx_` moves down to the next level in use. -/
def advanceBid (s : OrderBookV2) : Except Ub OrderBookV2 := do
  let i ← s.scanDown s.bestBidIdx.toNat
  .ok { s with bestBidIdx := i }

/-- The head of a level has been filled: unlink it, and free its node. -/
def dropHead (s : OrderBookV2) (idx : ℤ) : Except Ub OrderBookV2 := do
  let lvl ← s.levelAt idx
  let done := lvl.head
  let maker ← s.nodeAt done
  let s ← s.modifyLevel idx fun l => { l with head := maker.next }
  let s ←
    if maker.next ≠ kNil then s.modifyNode maker.next fun n => { n with prev := kNil }
    else s.modifyLevel idx fun l => { l with tail := kNil }
  .ok (freeNode { s with index := (s.index.erase maker.id).2 } done)

/-- The inner loop of `match`: fill from the head of level `idx`. -/
def matchLevel (levelPrice : ℤ) (idx : ℤ) : ℕ → OrderBookV2 → OrderRequest → List Trade →
    Except Ub (OrderBookV2 × OrderRequest × List Trade)
  | 0, _, _, _ => .error .diverges
  | fuel + 1, s, taker, trades => do
    let lvl ← s.levelAt idx
    if 0 < taker.qty ∧ lvl.head ≠ kNil then do
      let maker ← s.nodeAt lvl.head
      let fill := min taker.qty maker.qty
      let trades := trades ++ [{ makerId := maker.id, takerId := taker.id, price := levelPrice, qty := fill }]
      let taker := { taker with qty := taker.qty - fill }
      let s ← s.modifyNode lvl.head fun n => { n with qty := n.qty - fill }
      let s ← s.modifyLevel idx fun l => { l with totalQty := l.totalQty - fill }
      let s ← if maker.qty - fill = 0 then s.dropHead idx else .ok s
      matchLevel levelPrice idx fuel s taker trades
    else .ok (s, taker, trades)

/-- The price check of `match`: the taker does not reach the level. -/
def beyondLimit (taker : OrderRequest) (levelPrice : ℤ) : Bool :=
  taker.type ≠ .market &&
    match taker.side with
    | .buy => taker.price < levelPrice
    | .sell => levelPrice < taker.price

/-- The outer loop of `match`. -/
def matchLoop : ℕ → OrderBookV2 → OrderRequest → List Trade →
    Except Ub (OrderBookV2 × OrderRequest × List Trade)
  | 0, _, _, _ => .error .diverges
  | fuel + 1, s, taker, trades =>
    if 0 < taker.qty then do
      let bestIdx := match taker.side with
        | .buy => s.bestAskIdx
        | .sell => s.bestBidIdx
      if bestIdx < 0 then .ok (s, taker, trades)
      else do
        let levelPrice ← i64 (s.base + bestIdx)
        if beyondLimit taker levelPrice then .ok (s, taker, trades)
        else do
          let (s, taker, trades) ← matchLevel levelPrice bestIdx (s.arenaBump + 1) s taker trades
          let lvl ← s.levelAt bestIdx
          let s ←
            if lvl.head = kNil then
              match taker.side with
              | .buy => s.advanceAsk
              | .sell => s.advanceBid
            else .ok s
          matchLoop fuel s taker trades
    else .ok (s, taker, trades)

/-- `match`: every iteration but the last empties a level. -/
def match_ (s : OrderBookV2) (taker : OrderRequest) (trades : List Trade) :
    Except Ub (OrderBookV2 × OrderRequest × List Trade) :=
  matchLoop (s.levels.length + 1) s taker trades

/-- The loop of `can_fully_fill` for a buy order, with the number of levels left. -/
def fillableUp (s : OrderBookV2) (taker : OrderRequest) : ℕ → ℕ → Quantity → Except Ub Bool
  | 0, _, _ => .ok false
  | left + 1, idx, available => do
    let levelPrice ← i64 (s.base + idx)
    if taker.price < levelPrice then .ok false
    else do
      let lvl ← s.levelAt idx
      let available := available + lvl.totalQty
      if taker.qty ≤ available then .ok true else s.fillableUp taker left (idx + 1) available

/-- The loop of `can_fully_fill` for a sell order, from the index below the given one. -/
def fillableDown (s : OrderBookV2) (taker : OrderRequest) : ℕ → Quantity → Except Ub Bool
  | 0, _ => .ok false
  | idx + 1, available => do
    let levelPrice ← i64 (s.base + idx)
    if levelPrice < taker.price then .ok false
    else do
      let lvl ← s.levelAt idx
      let available := available + lvl.totalQty
      if taker.qty ≤ available then .ok true else s.fillableDown taker idx available

/-- `can_fully_fill`. -/
def canFullyFill (s : OrderBookV2) (taker : OrderRequest) : Except Ub Bool :=
  match taker.side with
  | .buy =>
    if s.bestAskIdx < 0 then .ok (taker.qty == 0)
    else s.fillableUp taker (s.levels.length - s.bestAskIdx.toNat) s.bestAskIdx.toNat 0
  | .sell =>
    if s.bestBidIdx < 0 then .ok (taker.qty == 0)
    else s.fillableDown taker (s.bestBidIdx.toNat + 1) 0

/-! ### The interface -/

/-- `has_bid`. -/
def hasBid (s : OrderBookV2) : Bool := 0 ≤ s.bestBidIdx

/-- `has_ask`. -/
def hasAsk (s : OrderBookV2) : Bool := 0 ≤ s.bestAskIdx

/-- `best_bid`. -/
def bestBid (s : OrderBookV2) : Except Ub ℤ := if 0 ≤ s.bestBidIdx then i64 (s.base + s.bestBidIdx) else .ok 0

/-- `best_ask`. -/
def bestAsk (s : OrderBookV2) : Except Ub ℤ := if 0 ≤ s.bestAskIdx then i64 (s.base + s.bestAskIdx) else .ok 0

/-- `depth`. -/
def depth (s : OrderBookV2) : ℕ := s.index.size

/-- The first half of `cancel`: the node leaves its level, and its id the index. -/
def unlinkNode (s : OrderBookV2) (id : OrderId) (e : IndexEntry) : Except Ub OrderBookV2 := do
  let n ← s.nodeAt e.nodeIdx
  let s ←
    if n.prev ≠ kNil then s.modifyNode n.prev fun m => { m with next := n.next }
    else s.modifyLevel e.levelIdx fun l => { l with head := n.next }
  let s ←
    if n.next ≠ kNil then s.modifyNode n.next fun m => { m with prev := n.prev }
    else s.modifyLevel e.levelIdx fun l => { l with tail := n.prev }
  let s ← s.modifyLevel e.levelIdx fun l => { l with totalQty := l.totalQty - n.qty }
  let s := s.freeNode e.nodeIdx
  .ok { s with index := (s.index.erase id).2 }

/-- The second half: the cursor moves if the node was the last one at the best price. -/
def afterUnlink (s : OrderBookV2) (e : IndexEntry) : Except Ub OrderBookV2 := do
  let lvl ← s.levelAt e.levelIdx
  if lvl.head = kNil then
    if e.side = .buy ∧ e.levelIdx = s.bestBidIdx then s.advanceBid
    else if e.side = .sell ∧ e.levelIdx = s.bestAskIdx then s.advanceAsk
    else .ok s
  else .ok s

/-- `cancel`. -/
def cancel (s : OrderBookV2) (id : OrderId) : Except Ub (Bool × OrderBookV2) :=
  match s.index.find id with
  | none => .ok (false, s)
  | some e => do
    let s ← s.unlinkNode id e
    let s ← s.afterUnlink e
    .ok (true, s)

/-- `reduce`. -/
def reduce (s : OrderBookV2) (id : OrderId) (delta : Quantity) : Except Ub (Bool × OrderBookV2) :=
  match s.index.find id with
  | none => .ok (false, s)
  | some e => do
    let n ← s.nodeAt e.nodeIdx
    if n.qty ≤ delta then s.cancel id
    else do
      let s ← s.modifyNode e.nodeIdx fun m => { m with qty := m.qty - delta }
      let s ← s.modifyLevel e.levelIdx fun l => { l with totalQty := l.totalQty - delta }
      .ok (true, s)

/-- How a call of `add` ends: the book, what is in `out_trades`, and the exception if it
throws one. -/
structure AddResult where
  /-- The book afterwards. -/
  book : OrderBookV2
  /-- `out_trades`. -/
  trades : List Trade
  /-- The exception thrown. -/
  thrown : Option Exn

/-- `would_cross` in `add`: a post-only order that would take liquidity on arrival. -/
def wouldCross (s : OrderBookV2) (taker : OrderRequest) : Except Ub Bool :=
  match taker.side with
  | .buy => if s.hasAsk then do .ok (decide ((← s.bestAsk) ≤ taker.price)) else .ok false
  | .sell => if s.hasBid then do .ok (decide (taker.price ≤ (← s.bestBid))) else .ok false

/-- `add`. -/
def add (s : OrderBookV2) (req : OrderRequest) : Except Ub AddResult :=
  match req.type with
  | .cancel => do
    let (_, s) ← s.cancel req.id
    .ok ⟨s, [], none⟩
  | .postOnly => do
    if ← s.wouldCross req then .ok ⟨s, [], none⟩
    else do
      let (thrown, s) ← s.rest req
      .ok ⟨s, [], thrown⟩
  | type => do
    let refused ← if type = .fok then (do .ok !(← s.canFullyFill req)) else .ok false
    if refused then .ok ⟨s, [], none⟩
    else do
      let (s, taker, trades) ← s.match_ req []
      if type = .limit ∧ 0 < taker.qty then do
        let (thrown, s) ← s.rest taker
        .ok ⟨s, trades, thrown⟩
      else .ok ⟨s, trades, none⟩

end OrderBookV2

end MatchingEngine
