import MatchingEngine.Core.Runs
import MatchingEngine.Foundation.Logged

/-!
# The book with a log

The functions of `cpp/src/order_book_v2.cpp` once more, with a log of what may make one of the two
growing containers of the hot path allocate: that `free_list_` has taken one entry more, and that `index_`
executes `rehash`. Only `free_node` does the first, and only `maybe_grow`, which `operator[]` runs, does
the second after construction. A function that does neither is used as it is.

Each `fL` is `f` with the log. That the log changes nothing else is proved where it is bounded, in
`HotPath.lean`.
-/

namespace MatchingEngine

open Foundation

/-- What happens to a container. -/
inductive ContainerEvent where
  /-- `free_list_.push_back`, after which the list has so many entries. -/
  | pushBack (size : ℕ)
  /-- `index_` executes `rehash(new_cap)`. -/
  | rehash (newCap : ℕ)
  deriving DecidableEq, Repr

/-! ### The map -/

namespace FlatHashMap

variable {V : Type}

namespace Raw

/-- `rehash`. -/
def rehashL (m : Raw V) (newCap : ℕ) : WriterT (List ContainerEvent) Option (Raw V) := do
  tell [.rehash newCap]
  m.rehash newCap

/-- `maybe_grow`. -/
def maybeGrowL (m : Raw V) : WriterT (List ContainerEvent) Option (Raw V) :=
  if overLoaded (m.live + 1) m.cap then m.rehashL (m.cap * 2) else pure m

/-- `operator[]`. -/
def indexL [Inhabited V] (m : Raw V) (key : UInt64) : WriterT (List ContainerEvent) Option (Raw V × ℕ) := do
  let m ← m.maybeGrowL
  let idx ← m.probeForInsert key
  if (m.slots idx).isSome then pure (m, idx)
  else pure ({ m with slots := Function.update m.slots idx (some (key, default)), live := m.live + 1 }, idx)

/-- `(*this)[key] = value`. -/
def setL [Inhabited V] (m : Raw V) (key : UInt64) (value : V) : WriterT (List ContainerEvent) Option (Raw V) := do
  let (m, idx) ← m.indexL key
  pure { m with slots := Function.update m.slots idx ((m.slots idx).map fun e => (e.1, value)) }

/-- What `operator[]` logs: it executes `rehash` if one entry more is too many. -/
def growth (m : Raw V) : List ContainerEvent := if overLoaded (m.live + 1) m.cap then [.rehash (m.cap * 2)] else []

/-- Of 16 slots 11 may be in use, and the grow test does not ask whether the key is there already. -/
example : ({ Raw.new 16 with live := 11 } : Raw ℕ).growth = [.rehash 32] := by decide

theorem run_maybeGrowL (m : Raw V) : m.maybeGrowL.run = (fun m' => (m', m.growth)) <$> m.maybeGrow := by
  rw [maybeGrowL, maybeGrow, growth]
  split_ifs
  · rw [rehashL]
    cases m.rehash (m.cap * 2) <;> rfl
  · rfl

theorem run_indexL [Inhabited V] (m : Raw V) (key : UInt64) :
    (m.indexL key).run = (fun r => (r, m.growth)) <$> m.index key := by
  refine run_bind_of_silent m.run_maybeGrowL fun m₁ => ?_
  have hprobe : (liftM (m₁.probeForInsert key) : WriterT (List ContainerEvent) Option ℕ).run =
      (fun idx => (idx, [])) <$> m₁.probeForInsert key := rfl
  refine run_bind_of_silent hprobe fun idx => ?_
  split_ifs
  · rfl
  · rfl

theorem run_setL [Inhabited V] (m : Raw V) (key : UInt64) (value : V) :
    (m.setL key value).run = (fun m' => (m', m.growth)) <$> m.set key value :=
  run_bind_of_silent (m.run_indexL key) fun _ => rfl

theorem setL_isSome [Inhabited V] (m : FlatHashMap V) (key : UInt64) (value : V) :
    (m.raw.setL key value).run.isSome := by
  rw [run_setL, Option.map_eq_map, Option.isSome_map]
  exact m.set_isSome key value

end Raw

/-- `(*this)[key] = value`. -/
def setL [Inhabited V] (m : FlatHashMap V) (key : UInt64) (value : V) :
    WriterT (List ContainerEvent) (Except Ub) (FlatHashMap V) := do
  tell ((m.raw.setL key value).run.get (Raw.setL_isSome m key value)).2
  pure (m.set key value)

end FlatHashMap

/-! ### The book -/

/-- A computation of the book, with its log. -/
abbrev WithLog (α : Type) := WriterT (List ContainerEvent) (Except Ub) α

namespace OrderBookV2

/-- `free_node`. -/
def freeNodeL (s : OrderBookV2) (idx : ℕ) : WithLog OrderBookV2 := do
  tell [.pushBack (s.freeNode idx).freeList.length]
  pure (s.freeNode idx)

/-- `push_back_order` after its allocation. -/
def linkBackL (s : OrderBookV2) (nodeIdx : ℕ) (levelIdx : ℤ) (side : Side) (req : OrderRequest) :
    WithLog OrderBookV2 := do
  let s ← s.modifyNode nodeIdx fun _ => { id := req.id, qty := req.qty, prev := kNil, next := kNil }
  let lvl ← s.levelAt levelIdx
  let s ←
    if lvl.tail = kNil then s.modifyLevel levelIdx fun l => { l with head := nodeIdx, tail := nodeIdx }
    else do
      let s ← s.modifyNode lvl.tail fun n => { n with next := nodeIdx }
      let s ← s.modifyNode nodeIdx fun n => { n with prev := lvl.tail }
      s.modifyLevel levelIdx fun l => { l with tail := nodeIdx }
  let s ← s.modifyLevel levelIdx fun l => { l with totalQty := l.totalQty + req.qty }
  let index ← s.index.setL req.id ⟨side, levelIdx, nodeIdx⟩
  pure { s with index := index }

/-- `push_back_order`. -/
def pushBackOrderL (s : OrderBookV2) (levelIdx : ℤ) (side : Side) (req : OrderRequest) :
    WithLog (Option Exn × OrderBookV2) :=
  match s.allocNode with
  | (.error e, s) => pure (some e, s)
  | (.ok nodeIdx, s) => do
    let s ← s.linkBackL nodeIdx levelIdx side req
    pure (none, s)

/-- How both resting paths of `add` end. -/
def restL (s : OrderBookV2) (taker : OrderRequest) : WithLog (Option Exn × OrderBookV2) := do
  let (idx, s) ← s.ensureIndexForPrice taker.price
  match idx with
  | .error e => pure (some e, s)
  | .ok idx =>
    let (thrown, s) ← s.pushBackOrderL idx taker.side taker
    match thrown with
    | some e => pure (some e, s)
    | none => pure (none, s.noteBest taker.side idx)

/-- The head of a level has been filled: unlink it, and free its node. -/
def dropHeadL (s : OrderBookV2) (idx : ℤ) : WithLog OrderBookV2 := do
  let lvl ← s.levelAt idx
  let done := lvl.head
  let maker ← s.nodeAt done
  let s ← s.modifyLevel idx fun l => { l with head := maker.next }
  let s ←
    if maker.next ≠ kNil then s.modifyNode maker.next fun n => { n with prev := kNil }
    else s.modifyLevel idx fun l => { l with tail := kNil }
  freeNodeL { s with index := (s.index.erase maker.id).2 } done

/-- The inner loop of `match`. -/
def matchLevelL (levelPrice : ℤ) (idx : ℤ) : ℕ → OrderBookV2 → OrderRequest → List Trade →
    WithLog (OrderBookV2 × OrderRequest × List Trade)
  | 0, _, _, _ => throw .diverges
  | fuel + 1, s, taker, trades => do
    let lvl ← s.levelAt idx
    if 0 < taker.qty ∧ lvl.head ≠ kNil then do
      let maker ← s.nodeAt lvl.head
      let fill := min taker.qty maker.qty
      let trades := trades ++ [{ makerId := maker.id, takerId := taker.id, price := levelPrice, qty := fill }]
      let taker := { taker with qty := taker.qty - fill }
      let s ← s.modifyNode lvl.head fun n => { n with qty := n.qty - fill }
      let s ← s.modifyLevel idx fun l => { l with totalQty := l.totalQty - fill }
      let s ← if maker.qty - fill = 0 then s.dropHeadL idx else pure s
      matchLevelL levelPrice idx fuel s taker trades
    else pure (s, taker, trades)

/-- The outer loop of `match`. -/
def matchLoopL : ℕ → OrderBookV2 → OrderRequest → List Trade →
    WithLog (OrderBookV2 × OrderRequest × List Trade)
  | 0, _, _, _ => throw .diverges
  | fuel + 1, s, taker, trades =>
    if 0 < taker.qty then do
      let bestIdx := match taker.side with
        | .buy => s.bestAskIdx
        | .sell => s.bestBidIdx
      if bestIdx < 0 then pure (s, taker, trades)
      else do
        let levelPrice ← i64 (s.base + bestIdx)
        if beyondLimit taker levelPrice then pure (s, taker, trades)
        else do
          let (s, taker, trades) ← matchLevelL levelPrice bestIdx (s.arenaBump + 1) s taker trades
          let lvl ← s.levelAt bestIdx
          let s ←
            if lvl.head = kNil then
              match taker.side with
              | .buy => s.advanceAsk
              | .sell => s.advanceBid
            else pure s
          matchLoopL fuel s taker trades
    else pure (s, taker, trades)

/-- `match`. -/
def matchL (s : OrderBookV2) (taker : OrderRequest) (trades : List Trade) :
    WithLog (OrderBookV2 × OrderRequest × List Trade) :=
  matchLoopL (s.levels.length + 1) s taker trades

/-- The first half of `cancel`. -/
def unlinkNodeL (s : OrderBookV2) (id : OrderId) (e : IndexEntry) : WithLog OrderBookV2 := do
  let n ← s.nodeAt e.nodeIdx
  let s ←
    if n.prev ≠ kNil then s.modifyNode n.prev fun m => { m with next := n.next }
    else s.modifyLevel e.levelIdx fun l => { l with head := n.next }
  let s ←
    if n.next ≠ kNil then s.modifyNode n.next fun m => { m with prev := n.prev }
    else s.modifyLevel e.levelIdx fun l => { l with tail := n.prev }
  let s ← s.modifyLevel e.levelIdx fun l => { l with totalQty := l.totalQty - n.qty }
  let s ← s.freeNodeL e.nodeIdx
  pure { s with index := (s.index.erase id).2 }

/-- `cancel`. -/
def cancelL (s : OrderBookV2) (id : OrderId) : WithLog (Bool × OrderBookV2) :=
  match s.index.find id with
  | none => pure (false, s)
  | some e => do
    let s ← s.unlinkNodeL id e
    let s ← s.afterUnlink e
    pure (true, s)

/-- `reduce`. -/
def reduceL (s : OrderBookV2) (id : OrderId) (delta : Quantity) : WithLog (Bool × OrderBookV2) :=
  match s.index.find id with
  | none => pure (false, s)
  | some e => do
    let n ← s.nodeAt e.nodeIdx
    if n.qty ≤ delta then s.cancelL id
    else do
      let s ← s.modifyNode e.nodeIdx fun m => { m with qty := m.qty - delta }
      let s ← s.modifyLevel e.levelIdx fun l => { l with totalQty := l.totalQty - delta }
      pure (true, s)

/-- `add`. -/
def addL (s : OrderBookV2) (req : OrderRequest) : WithLog AddResult :=
  match req.type with
  | .cancel => do
    let (_, s) ← s.cancelL req.id
    pure ⟨s, [], none⟩
  | .postOnly => do
    if ← s.wouldCross req then pure ⟨s, [], none⟩
    else do
      let (thrown, s) ← s.restL req
      pure ⟨s, [], thrown⟩
  | type => do
    let refused ← if type = .fok then (do pure !(← s.canFullyFill req)) else pure false
    if refused then pure ⟨s, [], none⟩
    else do
      let (s, taker, trades) ← s.matchL req []
      if type = .limit ∧ 0 < taker.qty then do
        let (thrown, s) ← s.restL taker
        pure ⟨s, trades, thrown⟩
      else pure ⟨s, trades, none⟩

/-- A call. -/
def callL (s : OrderBookV2) : Call → WithLog CallResult
  | .add req => do
    let r ← s.addL req
    pure ⟨r.book, .trades r.trades, r.thrown⟩
  | .cancel id => do
    let (found, s) ← s.cancelL id
    pure ⟨s, .found found, none⟩
  | .reduce id delta => do
    let (found, s) ← s.reduceL id delta
    pure ⟨s, .found found, none⟩

/-- The state after some calls. A call may throw. -/
def run (s : OrderBookV2) : List Call → Except Ub OrderBookV2
  | [] => .ok s
  | op :: ops => do
    let r ← s.call op
    r.book.run ops

/-- The state after some calls, with the log of all of them. -/
def runL (s : OrderBookV2) : List Call → WithLog OrderBookV2
  | [] => pure s
  | op :: ops => do
    let r ← s.callL op
    r.book.runL ops

end OrderBookV2

end MatchingEngine
