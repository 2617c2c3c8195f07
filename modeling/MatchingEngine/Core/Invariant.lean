import MatchingEngine.Core.OrderBookV2
import MatchingEngine.Core.Reference
import MatchingEngine.Foundation.Chain
import MatchingEngine.Foundation.Levels
import MatchingEngine.Foundation.Outcome

/-!
# The representation invariant

What the integers of `OrderBookV2` mean. A *layout* `c` says which cells of the arena are
the queue of each level; `Represents s c` says that the lists, the free list, the level
totals, the two cursors and the index of `s` all agree with it. It asks nothing of the ids:
it survives an id that is added while it still rests, and that is why the index may name
fewer cells than the layout has. `Tracked s c` says that it names them all.

`Represents` leaves open that a cursor stands on an empty level, as it does in the middle of
`match`; `Settled` rules that out. `bookOf s c` is then the reference book that `s` stands for.

The layout is determined by the book: it is what walking the lists finds (`Represents.layout`).
-/

namespace MatchingEngine

open Foundation

/-- Which cells are the queue of each level. -/
abbrev Layout := ℕ → List ℕ

/-- **The arena**: each cell below the bump pointer is free, or in one queue, once. -/
structure Partition (freeList : List ℕ) (bump : ℕ) (c : Layout) : Prop where
  /-- No cell is free twice. -/
  free_nodup : freeList.Nodup
  /-- No cell is in a queue twice. -/
  nodup : ∀ i, (c i).Nodup
  /-- No cell is in two queues. -/
  apart : ∀ {i j x}, x ∈ c i → x ∈ c j → i = j
  /-- No free cell is in a queue. -/
  free_apart : ∀ {i x}, x ∈ freeList → x ∉ c i
  /-- These are all the cells handed out so far. -/
  lt_iff : ∀ x, x < bump ↔ x ∈ freeList ∨ ∃ i, x ∈ c i

/-- The quantity in some cells. -/
def qtyIn (arena : ℕ → Node) (xs : List ℕ) : ℕ := (xs.map fun x => (arena x).qty.toNat).sum

/-- **A level** and the cells of its queue. -/
structure LevelOk (arena : ℕ → Node) (l : PriceLevel) (xs : List ℕ) : Prop where
  /-- The cells are doubly linked. -/
  links : Chain (fun x => (arena x).prev) (fun x => (arena x).next) kNil xs kNil
  /-- `head` is the first one. -/
  head : l.head = xs.headD kNil
  /-- `tail` is the last one. -/
  tail : l.tail = xs.getLastD kNil
  /-- `total_qty` is their quantity, in 64 bits. -/
  total : l.totalQty.toNat = qtyIn arena xs % 2 ^ 64

/-- **The cursors**: the levels in use up to the best bid are the bids, and those from the best
ask on are the asks. -/
structure Cursors (bid ask : ℤ) (c : Layout) : Prop where
  /-- There may be no bid. -/
  bid_ge : -1 ≤ bid
  /-- There may be no ask. -/
  ask_ge : -1 ≤ ask
  /-- The bids are strictly below the asks. -/
  uncrossed : 0 ≤ ask → bid < ask
  /-- Nothing rests between the two. -/
  split : ∀ i, c i ≠ [] → (i : ℤ) ≤ bid ∨ (0 ≤ ask ∧ ask ≤ i)

/-- **An entry of the index** is about a cell that is in the queue where it says. -/
structure EntryOk (arena : ℕ → Node) (bid : ℤ) (c : Layout) (id : OrderId) (e : IndexEntry) : Prop where
  /-- The level exists. -/
  nonneg : 0 ≤ e.levelIdx
  /-- The cell is in its queue. -/
  mem : e.nodeIdx ∈ c e.levelIdx.toNat
  /-- The cell holds the id. -/
  id : (arena e.nodeIdx).id = id
  /-- The side says on which side of the book the level is. -/
  side : e.side = .buy ↔ e.levelIdx ≤ bid

/-- **What the members of a book mean**, given the layout. -/
structure Represents (s : OrderBookV2) (c : Layout) : Prop where
  /-- Cell numbers are `uint32_t`, and `kNil` is none of them. -/
  capacity : s.arenaCapacity ≤ kNil
  /-- The bump pointer stays within the arena. -/
  bump_le : s.arenaBump ≤ s.arenaCapacity
  /-- The arena. -/
  partition : Partition s.freeList s.arenaBump c
  /-- The levels. -/
  level : ∀ i, LevelOk s.arena (s.level i) (c i)
  /-- The cursors. -/
  cursors : Cursors s.bestBidIdx s.bestAskIdx c
  /-- The index. -/
  entry : ∀ {id e}, s.index.find id = some e → EntryOk s.arena s.bestBidIdx c id e
  /-- The price of a level in use fits in an `int64_t`. -/
  price : ∀ i, c i ≠ [] → InI64 (s.base + i)
  /-- Before the first order there are no levels. -/
  unopened : s.haveBase = false → s.levels = []
  /-- After it, the window was not negative. -/
  opened : s.haveBase = true → WindowFits s.initialWindow

/-- Each cursor that names a level names one in use. -/
structure Live (s : OrderBookV2) (c : Layout) : Prop where
  /-- The best bid. -/
  bid : 0 ≤ s.bestBidIdx → c s.bestBidIdx.toNat ≠ []
  /-- The best ask. -/
  ask : 0 ≤ s.bestAskIdx → c s.bestAskIdx.toNat ≠ []

/-- **The state between two calls.** -/
structure Settled (s : OrderBookV2) (c : Layout) : Prop extends Represents s c, Live s c

/-- The index names every cell that is in a queue. -/
structure Tracked (s : OrderBookV2) (c : Layout) : Prop where
  /-- The entry under a cell's id is about that cell. -/
  find : ∀ {i x}, x ∈ c i → ∃ e, s.index.find (s.arena x).id = some e ∧ e.nodeIdx = x
  /-- As many entries as cells in use. -/
  size : s.index.size + s.freeList.length = s.arenaBump

/-! ### The book that is meant -/

namespace OrderBookV2

/-- An order, from the level and the cell it is in. -/
def orderAt (s : OrderBookV2) (i x : ℕ) : Order ℤ OrderId := ⟨(s.arena x).id, s.base + i, (s.arena x).qty.toNat⟩

/-- The orders of a level. -/
def queue (s : OrderBookV2) (c : Layout) (i : ℕ) : List (Order ℤ OrderId) := (c i).map (s.orderAt i)

/-- The first level above the bids. -/
def cut (s : OrderBookV2) : ℕ := (s.bestBidIdx + 1).toNat

/-- What the levels hold, side by side, with the best level first. -/
def sides {α : Type*} (s : OrderBookV2) (q : ℕ → List α) : Side → List α
  | .buy => down q s.cut
  | .sell => up q (s.levels.length - s.cut) s.cut

/-- The book that a layout stands for. -/
def bookOf (s : OrderBookV2) (c : Layout) : Book :=
  ⟨down (s.queue c) s.cut, up (s.queue c) (s.levels.length - s.cut) s.cut⟩

/-- The cells found by following `next` from the head of a level. -/
def levelNodes (s : OrderBookV2) (i : ℕ) : List ℕ :=
  walk (fun x => (s.arena x).next) kNil s.arenaBump (s.level i).head

/-- **The resting orders**, as they are found by walking the lists. -/
def book (s : OrderBookV2) : Book := s.bookOf s.levelNodes

end OrderBookV2

/-! ### Reading the invariant -/

open OrderBookV2

variable {s : OrderBookV2} {c : Layout} {i x : ℕ}

theorem Represents.lt_bump (h : Represents s c) (hx : x ∈ c i) : x < s.arenaBump :=
  (h.partition.lt_iff x).mpr (Or.inr ⟨i, hx⟩)

theorem Represents.lt_capacity (h : Represents s c) (hx : x ∈ c i) : x < s.arenaCapacity :=
  (h.lt_bump hx).trans_le h.bump_le

theorem Represents.ne_nil (h : Represents s c) (hx : x ∈ c i) : x ≠ kNil :=
  ((h.lt_capacity hx).trans_le h.capacity).ne

theorem Represents.nil_not_mem (h : Represents s c) (i : ℕ) : kNil ∉ c i := fun hx => h.ne_nil hx rfl

/-- **`head` tells whether a level is in use.** -/
theorem Represents.head_eq_nil (h : Represents s c) (i : ℕ) : (s.level i).head = kNil ↔ c i = [] := by
  rw [(h.level i).head]
  constructor
  · intro hk
    rcases headD_mem_or kNil (c i) with hm | he
    · exact absurd (hk ▸ hm) (h.nil_not_mem i)
    · exact he
  · intro he
    rw [he]
    rfl

theorem Represents.tail_eq_nil (h : Represents s c) (i : ℕ) : (s.level i).tail = kNil ↔ c i = [] := by
  rw [(h.level i).tail]
  constructor
  · intro hk
    rcases getLastD_mem_or kNil (c i) with hm | he
    · exact absurd (hk ▸ hm) (h.nil_not_mem i)
    · exact he
  · intro he
    rw [he]
    rfl

/-- Only levels that exist are in use. -/
theorem Represents.lt_length (h : Represents s c) (hi : c i ≠ []) : i < s.levels.length := by
  by_contra hc
  have hl : s.level i = {} := by
    rw [OrderBookV2.level, List.getD_eq_default _ _ (by omega)]
  exact hi ((h.head_eq_nil i).mp (by rw [hl]))

theorem Represents.queue_length_le (h : Represents s c) (i : ℕ) : (c i).length ≤ s.arenaBump := by
  have hsub : c i ⊆ List.range s.arenaBump := fun x hx => List.mem_range.mpr (h.lt_bump hx)
  simpa using ((h.partition.nodup i).subperm hsub).length_le

/-- **The layout is what walking the lists finds.** -/
theorem Represents.layout (h : Represents s c) : s.levelNodes = c := by
  funext i
  rw [levelNodes, (h.level i).head]
  exact (h.level i).links.walk_eq (h.nil_not_mem i) (h.queue_length_le i)

theorem Represents.book_eq (h : Represents s c) : s.book = s.bookOf c := by
  rw [OrderBookV2.book, h.layout]

/-- A change of every level that respects `++` is a change of every side. -/
theorem sides_hom {α β : Type*} {q : ℕ → List α} (f : List α → List β) (hnil : f [] = [])
    (happ : ∀ xs ys, f (xs ++ ys) = f xs ++ f ys) (side : Side) : s.sides (fun j => f (q j)) side = f (s.sides q side) := by
  cases side with
  | buy => exact down_hom f hnil happ _
  | sell => exact up_hom f hnil happ _ _

@[simp] theorem queue_eq_nil : s.queue c i = [] ↔ c i = [] := by simp [queue]

theorem mem_queue {o : Order ℤ OrderId} : o ∈ s.queue c i ↔ ∃ x ∈ c i, s.orderAt i x = o := List.mem_map

theorem queue_cons {xs : List ℕ} (hc : c i = x :: xs) : s.queue c i = s.orderAt i x :: xs.map (s.orderAt i) := by
  rw [queue, hc, List.map_cons]

/-- The price of an order is that of its level. -/
theorem price_of_mem_queue {o : Order ℤ OrderId} (ho : o ∈ s.queue c i) : o.price = s.base + i := by
  obtain ⟨x, -, rfl⟩ := mem_queue.mp ho
  rfl

theorem totalQty_queue : totalQty (s.queue c i) = qtyIn s.arena (c i) := by
  simp [totalQty, queue, qtyIn, orderAt, Function.comp_def]

theorem Represents.cut_eq (h : Represents s c) : (s.cut : ℤ) = s.bestBidIdx + 1 := by
  have := h.cursors.bid_ge
  rw [cut]
  omega

/-- A level in use below the cut is a level of bids. -/
theorem Represents.lt_cut_iff (h : Represents s c) : i < s.cut ↔ (i : ℤ) ≤ s.bestBidIdx := by
  have := h.cut_eq
  omega

/-- A level in use from the cut on is a level of asks. -/
theorem Represents.ask_le (h : Represents s c) (hi : c i ≠ []) (hc : s.cut ≤ i) :
    0 ≤ s.bestAskIdx ∧ s.bestAskIdx ≤ i := by
  have := h.cut_eq
  rcases h.cursors.split i hi with hl | hr
  · omega
  · exact hr

theorem Represents.mem_bids (h : Represents s c) {o : Order ℤ OrderId} :
    o ∈ (s.bookOf c).bids ↔ ∃ i : ℕ, (i : ℤ) ≤ s.bestBidIdx ∧ o ∈ s.queue c i := by
  simp only [bookOf, mem_down, h.lt_cut_iff]

theorem Represents.mem_asks (h : Represents s c) {o : Order ℤ OrderId} :
    o ∈ (s.bookOf c).asks ↔ ∃ i : ℕ, s.bestBidIdx < i ∧ o ∈ s.queue c i := by
  have hcut := h.cut_eq
  simp only [bookOf, mem_up]
  constructor
  · rintro ⟨i, h1, -, h3⟩
    exact ⟨i, by omega, h3⟩
  · rintro ⟨i, h1, h3⟩
    have := h.lt_length (queue_eq_nil.not.mp (List.ne_nil_of_mem h3))
    exact ⟨i, by omega, by omega, h3⟩

/-- The orders of the book are those of the queues. -/
theorem Represents.mem_orders (h : Represents s c) {o : Order ℤ OrderId} :
    o ∈ (s.bookOf c).orders ↔ ∃ i, o ∈ s.queue c i := by
  rw [Book.orders, List.mem_append, h.mem_bids, h.mem_asks]
  constructor
  · rintro (⟨i, -, h2⟩ | ⟨i, -, h2⟩) <;> exact ⟨i, h2⟩
  · rintro ⟨i, h2⟩
    rcases lt_or_ge s.bestBidIdx i with h1 | h1
    · exact Or.inr ⟨i, h1, h2⟩
    · exact Or.inl ⟨i, h1, h2⟩

/-- The ids that rest are those in the cells of the queues. -/
theorem Represents.mem_ids (h : Represents s c) {id : OrderId} :
    id ∈ (s.bookOf c).ids ↔ ∃ i, ∃ x ∈ c i, (s.arena x).id = id := by
  simp only [Book.ids, List.mem_map, h.mem_orders, mem_queue]
  constructor
  · rintro ⟨o, ⟨i, x, hx, rfl⟩, rfl⟩
    exact ⟨i, x, hx, rfl⟩
  · rintro ⟨i, x, hx, rfl⟩
    exact ⟨_, ⟨i, x, hx, rfl⟩, rfl⟩

/-- An id that is in the index rests. -/
theorem Represents.mem_ids_of_find (h : Represents s c) {id : OrderId} {e : IndexEntry}
    (he : s.index.find id = some e) : id ∈ (s.bookOf c).ids :=
  h.mem_ids.mpr ⟨_, _, (h.entry he).mem, (h.entry he).id⟩

/-- **The index tells which ids rest.** -/
theorem Tracked.find_isSome (t : Tracked s c) (h : Represents s c) {id : OrderId} :
    (s.index.find id).isSome ↔ id ∈ (s.bookOf c).ids := by
  constructor
  · intro he
    obtain ⟨e, he⟩ := Option.isSome_iff_exists.mp he
    exact h.mem_ids_of_find he
  · intro hm
    obtain ⟨i, x, hx, rfl⟩ := h.mem_ids.mp hm
    obtain ⟨e, he, -⟩ := t.find hx
    rw [he]
    rfl

/-- Two cells with one id are one cell. -/
theorem Tracked.cell_inj (t : Tracked s c) {j y : ℕ} (hx : x ∈ c i) (hy : y ∈ c j)
    (he : (s.arena x).id = (s.arena y).id) : x = y := by
  obtain ⟨e, h1, rfl⟩ := t.find hx
  obtain ⟨e', h1', rfl⟩ := t.find hy
  rw [he, h1'] at h1
  rw [Option.some.inj h1]

/-- The cells of the queues and the free ones are all there are. -/
theorem Represents.cells_perm (h : Represents s c) :
    (s.freeList ++ up c s.levels.length 0).Perm (List.range s.arenaBump) := by
  have hp := h.partition
  refine (List.perm_ext_iff_of_nodup ?_ List.nodup_range).mpr fun x => ?_
  · refine List.nodup_append.mpr ⟨hp.free_nodup, nodup_up hp.nodup hp.apart _ _, fun x hx y hy e => ?_⟩
    obtain ⟨j, -, -, hj⟩ := mem_up.mp hy
    exact hp.free_apart hx (e ▸ hj)
  · rw [List.mem_append, List.mem_range, hp.lt_iff, mem_up]
    constructor
    · rintro (hf | ⟨j, -, -, hj⟩)
      · exact Or.inl hf
      · exact Or.inr ⟨j, hj⟩
    · rintro (hf | ⟨j, hj⟩)
      · exact Or.inl hf
      · have := h.lt_length (List.ne_nil_of_mem hj)
        exact Or.inr ⟨j, by omega, by omega, hj⟩

theorem cut_le_length (h : Represents s c) (hl : Live s c) : s.cut ≤ s.levels.length := by
  have := h.cut_eq
  rcases lt_or_ge s.bestBidIdx 0 with hb | hb
  · omega
  · have := h.lt_length (hl.bid hb)
    omega

theorem length_up_queue (n i : ℕ) : (up (s.queue c) n i).length = (up c n i).length := by
  induction n generalizing i with
  | zero => rfl
  | succ n ih => simp [up, ih, queue]

/-- The orders of the book, the free cells, and the cells handed out. -/
theorem Settled.length_orders (h : Settled s c) :
    (s.bookOf c).orders.length + s.freeList.length = s.arenaBump := by
  have hperm := h.cells_perm.length_eq
  have hcut := cut_le_length h.toRepresents h.toLive
  have hsplit := up_add (s.queue c) s.cut (s.levels.length - s.cut) 0
  rw [Nat.add_sub_cancel' hcut, Nat.zero_add] at hsplit
  have hlen := congrArg List.length hsplit
  rw [length_up_queue, List.length_append] at hlen
  rw [List.length_append, List.length_range] at hperm
  simp only [Book.orders, bookOf, List.length_append, (down_perm_up (s.queue c) s.cut).length_eq]
  omega

/-- **`depth` counts the resting orders.** -/
theorem Tracked.depth (t : Tracked s c) (h : Settled s c) : s.depth = (s.bookOf c).orders.length := by
  have := t.size
  have := h.length_orders
  rw [OrderBookV2.depth]
  omega

/-! ### The best prices -/

/-- The asks, from the best one on. -/
theorem asks_from {k : ℕ} (hck : s.cut ≤ k)
    (hk : k ≤ s.levels.length) (he : ∀ j, s.cut ≤ j → j < k → c j = []) :
    (s.bookOf c).asks = up (s.queue c) (s.levels.length - k) k :=
  up_skip hck hk fun j h1 h2 => queue_eq_nil.mpr (he j h1 h2)

/-- Without an ask cursor there are no asks. -/
theorem Represents.asks_eq_nil (h : Represents s c) (ha : s.bestAskIdx < 0) : (s.bookOf c).asks = [] := by
  refine up_eq_nil fun j h1 _ => queue_eq_nil.mpr ?_
  by_contra hj
  have := (h.ask_le hj h1).1
  omega

theorem Represents.bids_eq_nil (h : Represents s c) (hb : s.bestBidIdx < 0) : (s.bookOf c).bids = [] := by
  have hcut : s.cut = 0 := by
    have := h.cut_eq
    omega
  rw [bookOf, hcut]
  rfl

/-- **The level of the best ask comes first among the asks.** -/
theorem Settled.asks_split (h : Settled s c) {k : ℕ} (hk : s.bestAskIdx = k) :
    (s.bookOf c).asks = s.queue c k ++ up (s.queue c) (s.levels.length - (k + 1)) (k + 1) := by
  have hcut := h.cut_eq
  have hun := h.cursors.uncrossed (by omega)
  have hlive := h.ask (by omega)
  rw [hk, Int.toNat_natCast] at hlive
  have hlt := h.lt_length hlive
  rw [asks_from (show s.cut ≤ k by omega) hlt.le, up_first hlt]
  intro j h1 h2
  by_contra hj
  have := (h.ask_le hj h1).2
  omega

/-- **The level of the best bid comes first among the bids.** -/
theorem Represents.bids_split (h : Represents s c) {k : ℕ} (hk : s.bestBidIdx = k) :
    (s.bookOf c).bids = s.queue c k ++ down (s.queue c) k := by
  have hcut : s.cut = k + 1 := by
    have := h.cut_eq
    omega
  rw [bookOf, hcut]
  rfl

theorem head?_queue_append {os : List (Order ℤ OrderId)} (hi : c i ≠ []) :
    (s.queue c i ++ os).head?.map (·.price) = some (s.base + i) := by
  obtain ⟨x, xs, hx⟩ := List.exists_cons_of_ne_nil hi
  simp [queue, hx, orderAt]

/-- **The cursors name the best prices.** -/
theorem Settled.best_sell (h : Settled s c) :
    (s.bookOf c).best .sell = if 0 ≤ s.bestAskIdx then some (s.base + s.bestAskIdx) else none := by
  simp only [Book.best, Book.side]
  split_ifs with ha
  · obtain ⟨k, hk⟩ := Int.eq_ofNat_of_zero_le ha
    have hlive := h.ask ha
    rw [hk, Int.toNat_natCast] at hlive
    rw [h.asks_split hk, head?_queue_append hlive, hk]
  · rw [h.asks_eq_nil (by omega)]
    rfl

theorem Settled.best_buy (h : Settled s c) :
    (s.bookOf c).best .buy = if 0 ≤ s.bestBidIdx then some (s.base + s.bestBidIdx) else none := by
  simp only [Book.best, Book.side]
  split_ifs with hb
  · obtain ⟨k, hk⟩ := Int.eq_ofNat_of_zero_le hb
    have hlive := h.bid hb
    rw [hk, Int.toNat_natCast] at hlive
    rw [h.bids_split hk, head?_queue_append hlive, hk]
  · rw [h.bids_eq_nil (by omega)]
    rfl

/-- No price computation on a level in use overflows. -/
theorem Represents.i64_price (h : Represents s c) (hi : c i ≠ []) : i64 (s.base + i) = .ok (s.base + i) := by
  rw [i64, if_pos (h.price i hi)]

theorem Settled.bestBid_eq (h : Settled s c) : s.bestBid = .ok (((s.bookOf c).best .buy).getD 0) := by
  rw [h.best_buy, bestBid]
  split_ifs with hb
  · obtain ⟨k, hk⟩ := Int.eq_ofNat_of_zero_le hb
    have hlive := h.bid hb
    rw [hk, Int.toNat_natCast] at hlive
    rw [hk, h.i64_price hlive]
    rfl
  · rfl

theorem Settled.bestAsk_eq (h : Settled s c) : s.bestAsk = .ok (((s.bookOf c).best .sell).getD 0) := by
  rw [h.best_sell, bestAsk]
  split_ifs with ha
  · obtain ⟨k, hk⟩ := Int.eq_ofNat_of_zero_le ha
    have hlive := h.ask ha
    rw [hk, Int.toNat_natCast] at hlive
    rw [hk, h.i64_price hlive]
    rfl
  · rfl

theorem Settled.hasBid_eq (h : Settled s c) : s.hasBid = ((s.bookOf c).best .buy).isSome := by
  rw [h.best_buy, hasBid]
  split_ifs with hb <;> simp [hb]

theorem Settled.hasAsk_eq (h : Settled s c) : s.hasAsk = ((s.bookOf c).best .sell).isSome := by
  rw [h.best_sell, hasAsk]
  split_ifs with ha <;> simp [ha]

/-! ### The new book -/

/-- **A new book represents no orders.** -/
theorem settled_new (capacity : UInt32) (window : ℤ) : Settled (OrderBookV2.new capacity window) fun _ => [] where
  capacity := Nat.le_pred_of_lt capacity.toNat_lt
  bump_le := Nat.zero_le _
  partition := ⟨List.nodup_nil, fun _ => List.nodup_nil, by simp, by simp, by simp [OrderBookV2.new]⟩
  level := fun i => ⟨trivial, rfl, rfl, rfl⟩
  cursors := ⟨le_rfl, le_rfl, fun h => absurd h (by simp [OrderBookV2.new]), by simp⟩
  entry := by simp [OrderBookV2.new]
  price := by simp
  unopened := fun _ => rfl
  opened := by simp [OrderBookV2.new]
  bid := fun h => absurd h (by simp [OrderBookV2.new])
  ask := fun h => absurd h (by simp [OrderBookV2.new])

theorem tracked_new (capacity : UInt32) (window : ℤ) : Tracked (OrderBookV2.new capacity window) fun _ => [] where
  find := by simp
  size := by simp [OrderBookV2.new]

end MatchingEngine
