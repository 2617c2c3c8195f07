import MatchingEngine.Core.Runs
import Mathlib.Order.Bounds.Defs

/-!
# What holds of the engine

The results about the book as a whole, over every run from a new book. It shows what the
plain reference book shows (`shows_new`). Its cursors name the best prices, bids stay below
asks, and no level holds both (`Reachable.bestPrices`). And its arrays keep their meaning
(`Reachable.repInvariant`).

Which side an order is on, and at which price, is read from the call that submitted it
(`requestOf`), not from where the engine keeps it.
-/

namespace MatchingEngine

open Foundation OrderBookV2

variable {s : OrderBookV2} {c : Layout} {capacity : UInt32} {window : ℤ} {ops : List Call}

/-! ### The plain reference book -/

/-- **Both sides are sorted.** -/
theorem bookOf_sorted (s : OrderBookV2) (c : Layout) : (s.bookOf c).Sorted := by
  have hone : ∀ side i, (s.queue c i).Pairwise fun x y => Side.ahead side y.price x.price = false := by
    refine fun side i => List.pairwise_of_forall_mem_list fun x hx y hy => ?_
    rw [price_of_mem_queue hx, price_of_mem_queue hy]
    cases side <;> simp [Side.ahead]
  intro side
  cases side with
  | buy =>
    refine pairwise_down (hone .buy) (fun {i j} hij x hx y hy => ?_) _
    rw [price_of_mem_queue hx, price_of_mem_queue hy]
    exact decide_eq_false (by omega)
  | sell =>
    refine pairwise_up (hone .sell) (fun {i j} hij x hx y hy => ?_) _ _
    rw [price_of_mem_queue hx, price_of_mem_queue hy]
    exact decide_eq_false (by omega)

/-- All resting quantities together fit in 64 bits. -/
def FitsIn64 (s : OrderBookV2) : Prop := totalQty s.book.orders < 2 ^ 64

instance : DecidablePred FitsIn64 := fun s => inferInstanceAs (Decidable (totalQty s.book.orders < 2 ^ 64))

theorem callWith_wrapping (h : Settled s c) (hfit : FitsIn64 s) (op : Call) :
    (s.bookOf c).callWith Book.coversWrapping op = (s.bookOf c).callWith Book.covers op := by
  cases op with
  | add req =>
    rw [FitsIn64, h.book_eq] at hfit
    rw [Book.callWith, Book.callWith, addWith_wrapping (bookOf_sorted s c) hfit]
    rfl
  | cancel id => rfl
  | reduce id delta => rfl

/-- As long as the quantities fit in 64 bits, the two reference books show the same. -/
theorem Settled.showsWith_wrapping (h : Settled s c) (t : Tracked s c) (hrun : s.Returning FitsIn64 ops) :
    (s.bookOf c).showsWith Book.coversWrapping ops = (s.bookOf c).shows ops := by
  induction ops generalizing s c with
  | nil => rfl
  | cons op ops ih =>
    obtain ⟨hfit, r, c', -, hr, hthrown, hrest⟩ := h.returning_cons t hrun
    have hret := hr.returned hthrown
    have hplain := hret.trans (callWith_wrapping h hfit op)
    rw [Book.shows, Book.showsWith, Book.showsWith, ← hret, ← hplain, ih hr.settled hr.tracked hrest]
    rfl

/-- **The engine is the plain reference book**: every answer and every observer agree, in every run
in which no call throws or overflows and the resting quantities fit in 64 bits. -/
theorem shows_new (hrun : (OrderBookV2.new capacity window).Returning FitsIn64 ops) :
    (OrderBookV2.new capacity window).shows ops = .ok (Book.shows .empty ops) := by
  have h := settled_new capacity window
  have t := tracked_new capacity window
  rw [h.shows t hrun, h.showsWith_wrapping t hrun]
  rfl

/-- A run with an order of every kind that can rest, a partial fill, a fill-or-kill order and a reduction. -/
theorem shows_new_run :
    let ops : List Call := [.add ⟨1, .buy, .limit, 100, 10⟩, .add ⟨2, .sell, .limit, 90, 4⟩, .reduce 1 2,
      .add ⟨3, .sell, .postOnly, 105, 5⟩, .add ⟨4, .buy, .fok, 105, 5⟩, .cancel 1]
    (OrderBookV2.new 4 8).Returning FitsIn64 ops ∧ (OrderBookV2.new 4 8).shows ops = .ok (Book.shows .empty ops) :=
  ⟨by decide, shows_new (by decide)⟩

/-! ### The best prices -/

/-- The latest request that submitted an id. -/
def requestOf (id : OrderId) (ops : List Call) : Option OrderRequest :=
  ops.foldl
    (fun found op =>
      match op with
      | .add req => if req.type ≠ .cancel ∧ req.id = id then some req else found
      | .cancel _ | .reduce _ _ => found)
    none

/-- The ids that are linked into a level. -/
def OrderBookV2.linkedIds (s : OrderBookV2) (i : ℕ) : List OrderId := (s.levelNodes i).map fun x => (s.arena x).id

/-- The prices of the orders of a side that rest, as they were submitted. -/
def restingPrices (s : OrderBookV2) (ops : List Call) (side : Side) : Set ℤ :=
  {p | ∃ i, ∃ id ∈ s.linkedIds i, ∃ req, requestOf id ops = some req ∧ req.side = side ∧ req.price = p}

theorem requestOf_snoc (id : OrderId) (ops : List Call) (op : Call) :
    requestOf id (ops ++ [op]) =
      match op with
      | .add req => if req.type ≠ .cancel ∧ req.id = id then some req else requestOf id ops
      | .cancel _ | .reduce _ _ => requestOf id ops := by
  rw [requestOf, List.foldl_append]
  rfl

/-- Each order of a book is on the side and at the price of the request that submitted it. -/
def Submitted (ops : List Call) (b : Book) : Prop :=
  ∀ side, ∀ o ∈ b.side side, ∃ req, requestOf o.id ops = some req ∧ req.side = side ∧ req.price = o.price

theorem Submitted.of_hasAt {b : Book} (h : Submitted ops b) {side : Side} {o : Order ℤ OrderId} (ho : b.HasAt side o) :
    ∃ req, requestOf o.id ops = some req ∧ req.side = side ∧ req.price = o.price := by
  obtain ⟨o', ho', hid, hp⟩ := ho
  rw [← hid, ← hp]
  exact h side o' ho'

/-- An id that is not submitted anew keeps its request. -/
theorem requestOf_of_hasAt {b : Book} {op : Call} (hop : op.Allowed b.ids) {side : Side} {o : Order ℤ OrderId}
    (ho : b.HasAt side o) : requestOf o.id (ops ++ [op]) = requestOf o.id ops := by
  obtain ⟨o', ho', hid, -⟩ := ho
  have hmem : o.id ∈ b.ids := hid ▸ List.mem_map_of_mem (mem_side_orders ho')
  rw [requestOf_snoc]
  cases op with
  | add req =>
    refine if_neg fun hnew => hop.2 hnew.1 ?_
    rw [hnew.2]
    exact hmem
  | cancel id => rfl
  | reduce id delta => rfl

/-- **A call keeps every order with the request that submitted it.** -/
theorem Submitted.call {r : CallResult} {c' : Layout} {op : Call} (h : Submitted ops (s.bookOf c))
    (hop : op.Allowed (s.bookOf c).ids) (hr : Called s c op r c') : Submitted (ops ++ [op]) (r.book.bookOf c') := by
  intro side o ho
  have hold : (s.bookOf c).HasAt side o →
      ∃ req, requestOf o.id (ops ++ [op]) = some req ∧ req.side = side ∧ req.price = o.price := by
    intro hat
    rw [requestOf_of_hasAt hop hat]
    exact h.of_hasAt hat
  by_cases hn : r.thrown = none
  · have hbook : r.book.bookOf c' = ((s.bookOf c).callWith Book.coversWrapping op).2 := by rw [← hr.returned hn]
    rw [hbook] at ho
    cases op with
    | add req =>
      rcases mem_side_addWith ho with hat | ⟨htype, hside, hid, hp⟩
      · exact hold hat
      · refine ⟨req, ?_, hside.symm, hp.symm⟩
        rw [requestOf_snoc]
        exact if_pos ⟨htype, hid.symm⟩
    | cancel id => exact hold (Book.hasAt_of_mem (mem_side_cancel.mp ho).1)
    | reduce id delta => exact hold (mem_side_reduce ho)
  · obtain ⟨req, -, hbook⟩ := hr.threw hn
    rw [hbook] at ho
    exact hold (mem_side_beforeRest ho)

/-- **The orders of every state** are on the side and at the price of the requests that submitted them. -/
theorem Reachable.submitted (h : Reachable capacity window ops s) : Submitted ops s.book := by
  induction h with
  | new =>
    intro side o ho
    rw [(settled_new capacity window).book_eq] at ho
    cases side <;> cases ho
  | call hs hop hr ih =>
    obtain ⟨hset, htr⟩ := hs.sound
    obtain ⟨c', hc⟩ := (hset.call htr hop).elim hr
    rw [hc.settled.book_eq]
    exact ih.call hop hc

/-- An order in a queue is on one side of the book. -/
theorem Represents.mem_queue_side (h : Represents s c) {i : ℕ} {o : Order ℤ OrderId} (ho : o ∈ s.queue c i) :
    o ∈ (s.bookOf c).side (if (i : ℤ) ≤ s.bestBidIdx then .buy else .sell) := by
  split_ifs with hi
  · exact h.mem_bids.mpr ⟨i, hi, ho⟩
  · exact h.mem_asks.mpr ⟨i, by omega, ho⟩

/-- The prices that rest on a side are those of the side of the book. -/
theorem Reachable.restingPrices_eq (h : Reachable capacity window ops s) (side : Side) :
    restingPrices s ops side = {p | ∃ o ∈ s.book.side side, o.price = p} := by
  obtain ⟨hset, -⟩ := h.sound
  have hsub := h.submitted
  ext p
  constructor
  · rintro ⟨i, id, hid, req, hreq, hside, hp⟩
    obtain ⟨x, hx, rfl⟩ := List.mem_map.mp hid
    have hmem := hset.mem_queue_side (mem_queue.mpr ⟨x, hx, rfl⟩)
    obtain ⟨req', hreq', hside', hp'⟩ := hsub _ _ hmem
    have he : req' = req := Option.some.inj (hreq'.symm.trans hreq)
    rw [← hside', he, hside] at hmem
    exact ⟨_, hmem, by rw [← hp', he, hp]⟩
  · rintro ⟨o, ho, rfl⟩
    obtain ⟨req, hreq⟩ := hsub side o ho
    obtain ⟨i, hi⟩ := hset.mem_orders.mp (mem_side_orders ho)
    obtain ⟨x, hx, rfl⟩ := mem_queue.mp hi
    exact ⟨i, _, List.mem_map_of_mem hx, req, hreq⟩

/-- On a sorted book the best price of a side comes first. -/
theorem best_eq_none {b : Book} {side : Side} : b.best side = none ↔ b.side side = [] := by
  rw [Book.best, Option.map_eq_none_iff, List.head?_eq_none_iff]

theorem ahead_of_best {b : Book} (hb : b.Sorted) {side : Side} {p : ℤ} (hp : b.best side = some p) :
    (∃ o ∈ b.side side, o.price = p) ∧ ∀ o ∈ b.side side, side.ahead o.price p = false := by
  obtain ⟨first, hfirst, rfl⟩ := Option.map_eq_some_iff.mp hp
  obtain ⟨os, hos⟩ := List.head?_eq_some_iff.mp hfirst
  have hs := hb side
  rw [hos, List.pairwise_cons] at hs
  refine ⟨⟨first, by rw [hos]; exact List.mem_cons_self, rfl⟩, fun o ho => ?_⟩
  rw [hos] at ho
  rcases List.mem_cons.mp ho with rfl | ho
  · cases side <;> simp [Side.ahead]
  · exact hs.1 o ho

/-- A side has a best price if and only if something rests on it. -/
theorem Reachable.nonempty_iff (h : Reachable capacity window ops s) (side : Side) :
    (restingPrices s ops side).Nonempty ↔ (s.book.best side).isSome = true := by
  rw [h.restingPrices_eq, Option.isSome_iff_ne_none, Ne, best_eq_none]
  constructor
  · rintro ⟨p, o, ho, -⟩
    exact List.ne_nil_of_mem ho
  · intro hne
    obtain ⟨o, ho⟩ := List.exists_mem_of_ne_nil _ hne
    exact ⟨o.price, o, ho, rfl⟩

/-- What `best_bid` returns when there is a bid. -/
theorem Reachable.bestBid (h : Reachable capacity window ops s) (hb : s.hasBid = true) :
    s.bestBid = .ok (s.base + s.bestBidIdx) ∧ IsGreatest (restingPrices s ops .buy) (s.base + s.bestBidIdx) := by
  obtain ⟨hset, -⟩ := h.sound
  have hbest := hset.best_buy
  rw [if_pos (of_decide_eq_true hb)] at hbest
  refine ⟨by rw [hset.bestBid_eq, hbest]; rfl, ?_⟩
  obtain ⟨hmem, hall⟩ := ahead_of_best (bookOf_sorted s s.levelNodes) hbest
  rw [h.restingPrices_eq]
  refine ⟨hmem, ?_⟩
  rintro p ⟨o, ho, rfl⟩
  have hle : ¬ s.base + s.bestBidIdx < o.price := of_decide_eq_false (hall o ho)
  exact not_lt.mp hle

/-- What `best_ask` returns when there is an ask. -/
theorem Reachable.bestAsk (h : Reachable capacity window ops s) (ha : s.hasAsk = true) :
    s.bestAsk = .ok (s.base + s.bestAskIdx) ∧ IsLeast (restingPrices s ops .sell) (s.base + s.bestAskIdx) := by
  obtain ⟨hset, -⟩ := h.sound
  have hbest := hset.best_sell
  rw [if_pos (of_decide_eq_true ha)] at hbest
  refine ⟨by rw [hset.bestAsk_eq, hbest]; rfl, ?_⟩
  obtain ⟨hmem, hall⟩ := ahead_of_best (bookOf_sorted s s.levelNodes) hbest
  rw [h.restingPrices_eq]
  refine ⟨hmem, ?_⟩
  rintro p ⟨o, ho, rfl⟩
  have hle : ¬ o.price < s.base + s.bestAskIdx := of_decide_eq_false (hall o ho)
  exact not_lt.mp hle

/-- A level holds orders of one side only. -/
theorem Reachable.one_side (h : Reachable capacity window ops s) (i : ℕ) :
    ∃ side, ∀ id ∈ s.linkedIds i, ∃ req, requestOf id ops = some req ∧ req.side = side := by
  obtain ⟨hset, -⟩ := h.sound
  refine ⟨if (i : ℤ) ≤ s.bestBidIdx then .buy else .sell, fun id hid => ?_⟩
  obtain ⟨x, hx, rfl⟩ := List.mem_map.mp hid
  obtain ⟨req, hreq, hside, -⟩ := h.submitted _ _ (hset.mem_queue_side (mem_queue.mpr ⟨x, hx, rfl⟩))
  exact ⟨req, hreq, hside⟩

/-- **The cursors and the sides**, in every state: `has_bid` and `has_ask` say whether the side has
orders, `best_bid` is then the highest price of a buy order and `best_ask` the lowest of a sell order,
the former is below the latter, and no level holds orders of both sides. -/
theorem Reachable.bestPrices (h : Reachable capacity window ops s) :
    (s.hasBid = true ↔ (restingPrices s ops .buy).Nonempty) ∧
    (s.hasAsk = true ↔ (restingPrices s ops .sell).Nonempty) ∧
    (s.hasBid = true → ∃ b, s.bestBid = .ok b ∧ IsGreatest (restingPrices s ops .buy) b) ∧
    (s.hasAsk = true → ∃ a, s.bestAsk = .ok a ∧ IsLeast (restingPrices s ops .sell) a) ∧
    (s.hasBid = true → s.hasAsk = true → ∃ b a, s.bestBid = .ok b ∧ s.bestAsk = .ok a ∧ b < a) ∧
    ∀ i, ∃ side, ∀ id ∈ s.linkedIds i, ∃ req, requestOf id ops = some req ∧ req.side = side := by
  obtain ⟨hset, -⟩ := h.sound
  refine ⟨?_, ?_, fun hb => ⟨_, h.bestBid hb⟩, fun ha => ⟨_, h.bestAsk ha⟩, fun hb ha => ?_, h.one_side⟩
  · rw [h.nonempty_iff, hset.hasBid_eq]
    rfl
  · rw [h.nonempty_iff, hset.hasAsk_eq]
    rfl
  · have := hset.cursors.uncrossed (of_decide_eq_true ha)
    exact ⟨_, _, (h.bestBid hb).1, (h.bestAsk ha).1, by omega⟩

/-- A state with both sides, after the axis has grown at the front. -/
theorem bestPrices_rebased :
    ∃ s, Reachable 4 8 [.add ⟨1, .sell, .limit, 100, 10⟩, .add ⟨2, .buy, .limit, 90, 4⟩] s ∧ s.hasBid = true ∧
      ∃ b, s.bestBid = .ok b ∧ IsGreatest (restingPrices s [.add ⟨1, .sell, .limit, 100, 10⟩,
        .add ⟨2, .buy, .limit, 90, 4⟩] .buy) b := by
  have hrun : ((OrderBookV2.new 4 8).after [.add ⟨1, .sell, .limit, 100, 10⟩, .add ⟨2, .buy, .limit, 90, 4⟩]).any
      OrderBookV2.hasBid = true := by decide
  obtain ⟨s, hs, hb⟩ := (Option.any_eq_true _ _).mp hrun
  have h := Reachable.new.after hs
  exact ⟨s, h, hb, h.bestPrices.2.2.1 hb⟩

/-! ### The arrays -/

/-- **What the arrays of a book mean.** -/
structure RepInvariant (s : OrderBookV2) : Prop where
  /-- A cell handed out is free, once, or linked into one level, once. -/
  cells : ∀ x < s.arenaBump,
    (s.freeList.count x = 1 ∧ ∀ i, x ∉ s.levelNodes i) ∨
      (x ∉ s.freeList ∧ ∃ i, (s.levelNodes i).count x = 1 ∧ ∀ j, x ∈ s.levelNodes j → j = i)
  /-- No other cell is free or linked, and there are cells enough. -/
  bounds : (∀ x ∈ s.freeList, x < s.arenaBump) ∧ (∀ i, ∀ x ∈ s.levelNodes i, x < s.arenaBump) ∧
    s.arenaBump ≤ s.arenaCapacity
  /-- The cells of a level are a doubly linked list from `head` to `tail`, without a cycle. -/
  links : ∀ i, Chain (fun x => (s.arena x).prev) (fun x => (s.arena x).next) kNil (s.levelNodes i) kNil ∧
    (s.levelNodes i).Nodup ∧ (s.level i).head = (s.levelNodes i).headD kNil ∧
    (s.level i).tail = (s.levelNodes i).getLastD kNil
  /-- A level has both ends or none. -/
  ends : ∀ i, (s.level i).head = kNil ↔ (s.level i).tail = kNil
  /-- `total_qty` is the quantity of its cells, in 64 bits. -/
  total : ∀ i, (s.level i).totalQty.toNat = qtyIn s.arena (s.levelNodes i) % 2 ^ 64
  /-- An entry of the index names a cell with its id, and the level the cell is linked into. -/
  entry : ∀ id e, s.index.find id = some e →
    ∃ i : ℕ, e.levelIdx = i ∧ e.nodeIdx ∈ s.levelNodes i ∧ (s.arena e.nodeIdx).id = id
  /-- Every linked cell has the entry of its id. -/
  indexed : ∀ (i : ℕ), ∀ x ∈ s.levelNodes i,
    ∃ e, s.index.find (s.arena x).id = some e ∧ e.levelIdx = i ∧ e.nodeIdx = x
  /-- There are no more entries than linked cells. -/
  size : s.index.size = s.book.orders.length

theorem repInvariant_of_settled (h : Settled s s.levelNodes) (t : Tracked s s.levelNodes) : RepInvariant s where
  cells x hx := by
    have hp := h.partition
    rcases (hp.lt_iff x).mp hx with hf | ⟨i, hi⟩
    · exact Or.inl ⟨List.count_eq_one_of_mem hp.free_nodup hf, fun i => hp.free_apart hf⟩
    · exact Or.inr ⟨fun hf => hp.free_apart hf hi, i, List.count_eq_one_of_mem (hp.nodup i) hi, fun j hj => hp.apart hj hi⟩
  bounds := ⟨fun x hx => (h.partition.lt_iff x).mpr (Or.inl hx), fun i x hx => h.lt_bump hx, h.bump_le⟩
  links i := ⟨(h.level i).links, h.partition.nodup i, (h.level i).head, (h.level i).tail⟩
  ends i := (h.head_eq_nil i).trans (h.tail_eq_nil i).symm
  total i := (h.level i).total
  entry id e he := by
    have hk := h.entry he
    exact ⟨e.levelIdx.toNat, (Int.toNat_of_nonneg hk.nonneg).symm, hk.mem, hk.id⟩
  indexed i x hx := by
    obtain ⟨e, he, rfl⟩ := t.find hx
    have hk := h.entry he
    refine ⟨e, he, ?_, rfl⟩
    rw [← h.partition.apart hk.mem hx, Int.toNat_of_nonneg hk.nonneg]
  size := t.depth h

theorem Reachable.capacity_eq (h : Reachable capacity window ops s) : s.arenaCapacity = capacity.toNat := by
  induction h with
  | new => rfl
  | call hs hop hr ih =>
    obtain ⟨hset, htr⟩ := hs.sound
    obtain ⟨c', hc⟩ := (hset.call htr hop).elim hr
    rw [hc.capacity, ih]

/-- **The arrays keep their meaning**, in every state. From there no call leaves the bounds of an array or
loops, and only a book whose every cell holds an order says that its arena is exhausted. -/
theorem Reachable.repInvariant (h : Reachable capacity window ops s) :
    RepInvariant s ∧ ∀ op : Call, op.Allowed s.book.ids →
      s.call op ≠ .error .outOfBounds ∧ s.call op ≠ .error .diverges ∧
      ∀ r, s.call op = .ok r → r.thrown = some arenaExhausted → r.book.book.orders.length = capacity.toNat := by
  obtain ⟨hset, htr⟩ := h.sound
  refine ⟨repInvariant_of_settled hset htr, fun op hop => ?_⟩
  have hends := hset.call htr hop
  refine ⟨fun he => ?_, fun he => ?_, fun r hr ht => ?_⟩
  · rw [he] at hends
    cases hends
  · rw [he] at hends
    cases hends
  · obtain ⟨c', hc⟩ := hends.elim hr
    rw [hc.settled.book_eq, hc.exhausted ht, h.capacity_eq]

/-- An arena of one cell, whose order is filled while the next one, which takes its cell, comes to rest. -/
theorem repInvariant_reused :
    ∃ s, Reachable 1 8 [.add ⟨1, .buy, .limit, 100, 10⟩, .add ⟨2, .sell, .limit, 90, 14⟩] s ∧ RepInvariant s ∧
      ∃ r, s.call (.add ⟨3, .buy, .limit, 80, 1⟩) = .ok r ∧ r.thrown = some arenaExhausted ∧
        r.book.book.orders.length = 1 := by
  have hrun : ((OrderBookV2.new 1 8).after [.add ⟨1, .buy, .limit, 100, 10⟩, .add ⟨2, .sell, .limit, 90, 14⟩]).any
      (fun s => decide ((Call.add ⟨3, .buy, .limit, 80, 1⟩).Allowed s.book.ids) &&
        (s.call (.add ⟨3, .buy, .limit, 80, 1⟩)).toOption.any fun r => r.thrown = some arenaExhausted) = true := by decide
  obtain ⟨s, hs, hnext⟩ := (Option.any_eq_true _ _).mp hrun
  have h := Reachable.new.after hs
  obtain ⟨hop, hr⟩ := Bool.and_eq_true_iff.mp hnext
  refine ⟨s, h, h.repInvariant.1, ?_⟩
  cases hcall : s.call (.add ⟨3, .buy, .limit, 80, 1⟩) with
  | error u =>
    rw [hcall] at hr
    cases hr
  | ok r =>
    rw [hcall] at hr
    have hthrown := of_decide_eq_true hr
    exact ⟨r, rfl, hthrown, (h.repInvariant.2 _ (of_decide_eq_true hop)).2.2 r hcall hthrown⟩

end MatchingEngine
