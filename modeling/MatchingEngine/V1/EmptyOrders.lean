import MatchingEngine.Core.EmptyOrders
import MatchingEngine.V1.OrderBook

/-!
# Orders without shares, in both books

The first book has the same gap as the second: a PostOnly order that does not cross rests with
the quantity it comes with. `no_empty_orders` is what holds of both without such orders; and
`empty_order_rests` is a run of each with one.

Nothing here depends on the prices but how they compare, so that the integers stand for
doubles in their order.
-/

namespace MatchingEngine.V1

open Foundation LevelMap OrderBook

/-! ### Runs of the first book -/

/-- One call, with the price as it is. -/
def OrderBook.step (b : OrderBook) : Op → List Trade × OrderBook
  | .add req => b.add req
  | .cancel id => ([], (b.cancel id).2)

/-- The call is not a PostOnly order of quantity 0 that does not cross. -/
def NoEmptyPostOnly (b : OrderBook) : Op → Prop
  | .add req => req.type = .postOnly → req.qty = 0 → b.wouldCross req = true
  | .cancel _ => True

/-- **The states of the first book** that calls lead to which all meet a condition, each in the state before it. -/
inductive ReachedBy (meets : OrderBook → Op → Prop) : OrderBook → Prop
  /-- A new book. -/
  | new : ReachedBy meets OrderBook.new
  /-- One call more. -/
  | step {b op} : ReachedBy meets b → meets b op → ReachedBy meets (b.step op).2

/-! ### What a call keeps -/

/-- Every order of a queue has shares. -/
def Filled (queue : List OrderRequest) : Prop := ∀ o ∈ queue, 0 < o.qty

/-- Every level has an order, and every order has shares. -/
def MapStocked (m : LevelMap ℤ OrderRequest) : Prop := ∀ l ∈ m, l.2 ≠ [] ∧ Filled l.2

/-- Both maps are stocked. -/
def OrderBook.Stocked (b : OrderBook) : Prop := ∀ side, MapStocked (b.levels side)

theorem filled_cons {o : OrderRequest} {queue : List OrderRequest} :
    Filled (o :: queue) ↔ 0 < o.qty ∧ Filled queue := List.forall_mem_cons

theorem stocked_cons {l : ℤ × List OrderRequest} {m : LevelMap ℤ OrderRequest} :
    MapStocked (l :: m) ↔ (l.2 ≠ [] ∧ Filled l.2) ∧ MapStocked m := List.forall_mem_cons

theorem pos_iff_ne_zero {q : Quantity} : 0 < q ↔ q ≠ 0 := by
  rw [← toNat_pos, Nat.pos_iff_ne_zero]
  exact toNat_eq_zero.not

theorem min_pos {a b : Quantity} (ha : 0 < a) (hb : 0 < b) : 0 < min a b := by
  rw [← toNat_pos, toNat_min]
  exact lt_min (toNat_pos.mpr ha) (toNat_pos.mpr hb)

variable {p : ℤ} {m : LevelMap ℤ OrderRequest} {queue : List OrderRequest} {b : OrderBook}

/-- **The inner loop** leaves orders with shares, and makes trades of shares. -/
theorem fillQueue_filled (h : Filled queue) (p : ℤ) (taker : OrderRequest) (index : Index) :
    Filled (fillQueue p queue taker index).left ∧ ∀ t ∈ (fillQueue p queue taker index).trades, 0 < t.qty := by
  induction queue generalizing taker index with
  | nil => simp [fillQueue, Filled]
  | cons maker queue ih =>
    obtain ⟨hmaker, hqueue⟩ := filled_cons.mp h
    rw [fillQueue]
    by_cases hq : 0 < taker.qty
    · have htrade : 0 < min taker.qty maker.qty := min_pos hq hmaker
      rw [if_pos hq]
      dsimp only
      by_cases hz : maker.qty - min taker.qty maker.qty = 0
      · rw [if_pos hz]
        obtain ⟨hleft, htrades⟩ := ih hqueue { taker with qty := taker.qty - min taker.qty maker.qty }
          (Function.update index maker.id none)
        exact ⟨hleft, List.forall_mem_cons.mpr ⟨htrade, htrades⟩⟩
      · rw [if_neg hz]
        exact ⟨filled_cons.mpr ⟨pos_iff_ne_zero.mpr hz, hqueue⟩, List.forall_mem_singleton.mpr htrade⟩
    · rw [if_neg hq]
      exact ⟨h, by simp⟩

/-- **The outer loop** does too. -/
theorem matchAgainst_stocked (h : MapStocked m) (taker : OrderRequest) (index : Index) :
    MapStocked (matchAgainst m taker index).left ∧ ∀ t ∈ (matchAgainst m taker index).trades, 0 < t.qty := by
  induction m generalizing taker index with
  | nil => simp [matchAgainst, MapStocked]
  | cons l m ih =>
    obtain ⟨bestOpp, queue⟩ := l
    obtain ⟨⟨-, hqueue⟩, hm⟩ := stocked_cons.mp h
    rw [matchAgainst]
    by_cases hq : 0 < taker.qty
    · rw [if_pos hq]
      by_cases hbeyond : beyondLimit taker bestOpp = true
      · rw [if_pos hbeyond]
        exact ⟨h, by simp⟩
      · rw [if_neg hbeyond]
        obtain ⟨hleft, htrades⟩ := fillQueue_filled hqueue bestOpp taker index
        dsimp only
        by_cases hnil : (fillQueue bestOpp queue taker index).left = []
        · rw [if_pos hnil]
          obtain ⟨hleft', htrades'⟩ := ih hm (fillQueue bestOpp queue taker index).taker
            (fillQueue bestOpp queue taker index).index
          exact ⟨hleft', List.forall_mem_append.mpr ⟨htrades, htrades'⟩⟩
        · rw [if_neg hnil]
          exact ⟨stocked_cons.mpr ⟨⟨hnil, hleft⟩, hm⟩, htrades⟩
    · rw [if_neg hq]
      exact ⟨h, by simp⟩

theorem pushBack_stocked (h : MapStocked m) {ahead : ℤ → ℤ → Bool} {o : OrderRequest} (ho : 0 < o.qty) :
    MapStocked (pushBack ahead p o m) := by
  have hone : Filled [o] := List.forall_mem_singleton.mpr ho
  induction m with
  | nil => exact List.forall_mem_singleton.mpr ⟨by simp, hone⟩
  | cons l m ih =>
    obtain ⟨q, xs⟩ := l
    obtain ⟨⟨hne, hxs⟩, hm⟩ := stocked_cons.mp h
    rw [pushBack]
    split_ifs
    · exact stocked_cons.mpr ⟨⟨by simp, hone⟩, h⟩
    · exact stocked_cons.mpr ⟨⟨hne, hxs⟩, ih hm⟩
    · exact stocked_cons.mpr ⟨⟨by simp, List.forall_mem_append.mpr ⟨hxs, hone⟩⟩, hm⟩

theorem doCancel_stocked (h : MapStocked m) (id : OrderId) (p : ℤ) : MapStocked (doCancel id p m).2 := by
  induction m with
  | nil => exact h
  | cons l m ih =>
    obtain ⟨q, queue⟩ := l
    obtain ⟨⟨hne, hqueue⟩, hm⟩ := stocked_cons.mp h
    rw [doCancel]
    split_ifs with hp
    · dsimp only
      split_ifs with hnil
      · exact hm
      · exact stocked_cons.mpr ⟨⟨hnil, fun o ho => hqueue o (List.mem_of_mem_filter ho)⟩, hm⟩
    · exact stocked_cons.mpr ⟨⟨hne, hqueue⟩, ih hm⟩

theorem OrderBook.Stocked.withLevels (h : b.Stocked) (side : Side) (hm : MapStocked m) (index : Index) :
    OrderBook.Stocked { b.withLevels side m with index } := by
  intro side'
  cases side with
  | buy =>
    cases side' with
    | buy => exact hm
    | sell => exact h .sell
  | sell =>
    cases side' with
    | buy => exact h .buy
    | sell => exact hm

theorem OrderBook.Stocked.cancel (h : b.Stocked) (id : OrderId) : (b.cancel id).2.Stocked := by
  rw [OrderBook.cancel]
  cases b.index id with
  | none => exact h
  | some e =>
    obtain ⟨side, price⟩ := e
    have hm := doCancel_stocked (h side) id price
    dsimp only
    split_ifs
    · exact h.withLevels side hm _
    · exact h.withLevels side hm b.index

theorem OrderBook.Stocked.rest (h : b.Stocked) {o : OrderRequest} (ho : 0 < o.qty) : (b.rest o).Stocked :=
  h.withLevels o.side (pushBack_stocked (h o.side) ho) _

/-- Matching keeps the maps stocked, and makes trades of shares. -/
theorem OrderBook.Stocked.match_ (h : b.Stocked) (taker : OrderRequest) :
    (b.match_ taker).2.2.Stocked ∧ ∀ t ∈ (b.match_ taker).1, 0 < t.qty := by
  obtain ⟨hleft, htrades⟩ := matchAgainst_stocked (h taker.side.opposite) taker b.index
  exact ⟨h.withLevels _ hleft _, htrades⟩

/-- **`add`** keeps the maps stocked, and makes trades of shares. -/
theorem OrderBook.Stocked.add (h : b.Stocked) {o : OrderRequest} :
    (NoEmptyPostOnly b (.add o) → (b.add o).2.Stocked) ∧ ∀ t ∈ (b.add o).1, 0 < t.qty := by
  obtain ⟨hmatched, htrades⟩ := h.match_ o
  cases htype : o.type with
  | cancel =>
    rw [OrderBook.add, htype]
    exact ⟨fun _ => h.cancel o.id, by simp⟩
  | postOnly =>
    rw [OrderBook.add, htype]
    dsimp only
    by_cases hx : b.wouldCross o = true
    · rw [if_pos hx]
      exact ⟨fun _ => h, by simp⟩
    · rw [if_neg hx]
      -- the one place where the quantity is not looked at
      exact ⟨fun hop => h.rest (pos_iff_ne_zero.mpr fun hq => hx (hop htype hq)), by simp⟩
  | limit =>
    rw [OrderBook.add, htype]
    simp only [reduceCtorEq, false_and, if_false, true_and]
    by_cases hq : 0 < (b.match_ o).2.1.qty
    · rw [if_pos hq]
      exact ⟨fun _ => hmatched.rest hq, htrades⟩
    · rw [if_neg hq]
      exact ⟨fun _ => hmatched, htrades⟩
  | market =>
    rw [OrderBook.add, htype]
    simp only [reduceCtorEq, false_and, if_false]
    exact ⟨fun _ => hmatched, htrades⟩
  | ioc =>
    rw [OrderBook.add, htype]
    simp only [reduceCtorEq, false_and, if_false]
    exact ⟨fun _ => hmatched, htrades⟩
  | fok =>
    rw [OrderBook.add, htype]
    simp only [reduceCtorEq, false_and, if_false, true_and]
    split_ifs
    · exact ⟨fun _ => hmatched, htrades⟩
    · exact ⟨fun _ => h, by simp⟩

/-- **In a run without empty PostOnly orders** the maps are stocked. -/
theorem ReachedBy.stocked (h : ReachedBy NoEmptyPostOnly b) : b.Stocked := by
  induction h with
  | new =>
    intro side
    cases side <;> simp [OrderBook.levels, OrderBook.new, MapStocked]
  | @step b op hb hmeets ih =>
    cases op with
    | add req => exact ih.add.1 hmeets
    | cancel id => exact ih.cancel id

/-! ### Both books -/

/-- **No empty orders and no empty trades**, in any run of either book where no PostOnly order
of quantity 0 comes to rest: every order that rests has shares, so has every trade, and a
side that is announced has shares to trade. -/
theorem no_empty_orders (capacity : UInt32) (window : ℤ) (s : OrderBookV2) (b : OrderBook) :
    (MatchingEngine.ReachedBy MatchingEngine.NoEmptyPostOnly capacity window s →
      (∀ o ∈ s.book.orders, 0 < o.qty) ∧
      (∀ op r ts, op.InRange → s.call op = .ok r → r.answer = .trades ts → ∀ t ∈ ts, 0 < t.qty) ∧
      (s.hasBid = true → ∃ o ∈ s.book.bids, 0 < o.qty) ∧ (s.hasAsk = true → ∃ o ∈ s.book.asks, 0 < o.qty)) ∧
    (ReachedBy NoEmptyPostOnly b →
      (∀ side, ∀ l ∈ b.levels side, l.2 ≠ [] ∧ ∀ o ∈ l.2, 0 < o.qty) ∧
      ∀ op, ∀ t ∈ (b.step op).1, 0 < t.qty) := by
  refine ⟨fun h => h.positive, fun h => ⟨h.stocked, fun op => ?_⟩⟩
  cases op with
  | add req => exact h.stocked.add.2
  | cancel id => simp [OrderBook.step]

/-- A run of each book that rests an order. -/
theorem no_empty_orders_resting :
    (∃ s, MatchingEngine.ReachedBy MatchingEngine.NoEmptyPostOnly 4 8 s ∧ s.book.orders = [⟨1, 100, 5⟩] ∧
      ∀ o ∈ s.book.orders, 0 < o.qty) ∧
    ∀ side, ∀ l ∈ (OrderBook.new.step (.add ⟨1, .buy, .postOnly, 100, 5⟩)).2.levels side,
      l.2 ≠ [] ∧ ∀ o ∈ l.2, 0 < o.qty := by
  have hrun : ((OrderBookV2.new 4 8).call (.add ⟨1, .buy, .postOnly, 100, 5⟩)).toOption.any
      (fun r => decide (r.book.book.orders = [⟨1, 100, 5⟩])) = true := by decide
  obtain ⟨r, hr, horders⟩ := exists_of_toOption_any hrun
  have hqty : (5 : Quantity) ≠ 0 := by decide
  have hmeets : MatchingEngine.NoEmptyPostOnly (OrderBookV2.new 4 8) (.add ⟨1, .buy, .postOnly, 100, 5⟩) :=
    fun _ hq => absurd hq hqty
  have hs := MatchingEngine.ReachedBy.new.call (by decide) hmeets hr
  have hb : ReachedBy NoEmptyPostOnly (OrderBook.new.step (.add ⟨1, .buy, .postOnly, 100, 5⟩)).2 :=
    .step .new fun _ hq => absurd hq hqty
  exact ⟨⟨r.book, hs, of_decide_eq_true horders, ((no_empty_orders 4 8 r.book .new).1 hs).1⟩,
    ((no_empty_orders 4 8 (OrderBookV2.new 4 8) _).2 hb).1⟩

/-- **An order of quantity 0** comes to rest in both books, announces a bid, and is traded against
in a trade of quantity 0. -/
theorem empty_order_rests :
    (∃ s, Reached 4 8 s ∧ s.hasBid = true ∧ s.book.orders = [⟨1, 100, 0⟩] ∧
      ∃ r, s.call (.add ⟨2, .sell, .market, 0, 5⟩) = .ok r ∧ r.answer = .trades [⟨1, 2, 100, 0⟩]) ∧
    (OrderBook.new.step (.add ⟨1, .buy, .postOnly, 100, 0⟩)).2.bids = [(100, [⟨1, .buy, .postOnly, 100, 0⟩])] ∧
    ((OrderBook.new.step (.add ⟨1, .buy, .postOnly, 100, 0⟩)).2.step (.add ⟨2, .sell, .market, 0, 5⟩)).1 =
      [⟨1, 2, 100, 0⟩] := by
  have hrun : ((OrderBookV2.new 4 8).call (.add ⟨1, .buy, .postOnly, 100, 0⟩)).toOption.any
      (fun r => r.book.hasBid && decide (r.book.book.orders = [⟨1, 100, 0⟩]) &&
        (r.book.call (.add ⟨2, .sell, .market, 0, 5⟩)).toOption.any
          fun r => decide (r.answer = .trades [⟨1, 2, 100, 0⟩])) = true := by decide
  obtain ⟨r, hr, hrest⟩ := exists_of_toOption_any hrun
  obtain ⟨hbook, hnext⟩ := Bool.and_eq_true_iff.mp hrest
  obtain ⟨hbid, horders⟩ := Bool.and_eq_true_iff.mp hbook
  obtain ⟨r', hr', htrades⟩ := exists_of_toOption_any hnext
  exact ⟨⟨r.book, .call .new (by decide) hr, hbid, of_decide_eq_true horders, r', hr', of_decide_eq_true htrades⟩,
    by decide, by decide⟩

end MatchingEngine.V1
