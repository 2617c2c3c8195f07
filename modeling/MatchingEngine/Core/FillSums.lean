import MatchingEngine.Core.AllOrNothing
import MatchingEngine.Foundation.PriceSums

/-!
# The sums of the fill-or-kill test

The two loops of `can_fully_fill` are one, over the levels from the best one on (`sumLevels`), and
`additions` are the pairs of words that it adds. `Settled.canFullyFill_fits`: no addition
wraps around and no level price overflows, if

* the quantity down to each price that the test comes to fits in 64 bits (`SumsFit`), and
* a buy order at the last price of `int64_t` finds enough before the level array leaves the type, or
  the array does not leave it (`ScanFits`).

The first speaks of prices with orders only, since an empty level adds nothing. The second is about
nothing but empty levels, since an order never rests at a price that is not an `int64_t`.
-/

namespace MatchingEngine

open Foundation OrderBookV2

variable {s : OrderBookV2} {c : Layout} {taker : OrderRequest}

namespace OrderBookV2

/-! ### One loop for both sides -/

/-- The levels that `can_fully_fill` visits for an order of a side, if it does not stop before. -/
def scanOrder (s : OrderBookV2) : Side → List ℕ
  | .buy => List.range' s.bestAskIdx.toNat (s.levels.length - s.bestAskIdx.toNat)
  | .sell => (List.range (s.bestBidIdx.toNat + 1)).reverse

/-- The loop of `can_fully_fill` over some levels. -/
def sumLevels (s : OrderBookV2) (taker : OrderRequest) : List ℕ → Quantity → Except Ub Bool
  | [], _ => .ok false
  | i :: is, available => do
    let levelPrice ← i64 (s.base + i)
    if taker.accepts levelPrice then do
      let lvl ← s.levelAt i
      let available := available + lvl.totalQty
      if taker.qty ≤ available then .ok true else s.sumLevels taker is available
    else .ok false

/-- The additions of this loop: `available`, and the `total_qty` that is added to it. -/
def additions (s : OrderBookV2) (taker : OrderRequest) : List ℕ → Quantity → List (Quantity × Quantity)
  | [], _ => []
  | i :: is, available =>
    if taker.accepts (s.base + i) then
      let total := (s.level i).totalQty
      (available, total) ::
        if taker.qty ≤ available + total then [] else s.additions taker is (available + total)
    else []

/-- **The additions of `can_fully_fill`.** -/
def fillAdditions (s : OrderBookV2) (taker : OrderRequest) : List (Quantity × Quantity) :=
  if s.bestIdx taker.side.opposite < 0 then [] else s.additions taker (s.scanOrder taker.side) 0

theorem fillableUp_eq (hmarket : taker.type ≠ .market) (hside : taker.side = .buy) (left i : ℕ) (available : Quantity) :
    s.fillableUp taker left i available = s.sumLevels taker (List.range' i left) available := by
  induction left generalizing i available with
  | zero => rfl
  | succ left ih =>
    rw [fillableUp, List.range'_succ, sumLevels]
    refine congrArg _ (funext fun p => ?_)
    rw [accepts_buy hmarket hside]
    simp only [ih, decide_eq_true_eq]
    split_ifs with h1 h2 h2
    · omega
    · rfl
    · rfl
    · omega

theorem fillableDown_eq (hmarket : taker.type ≠ .market) (hside : taker.side = .sell) (i : ℕ) (available : Quantity) :
    s.fillableDown taker i available = s.sumLevels taker (List.range i).reverse available := by
  induction i generalizing available with
  | zero => rfl
  | succ i ih =>
    rw [fillableDown, List.range_succ, List.reverse_append, List.reverse_singleton, List.singleton_append, sumLevels]
    refine congrArg _ (funext fun p => ?_)
    rw [accepts_sell hmarket hside]
    simp only [ih, decide_eq_true_eq]
    split_ifs with h1 h2 h2
    · omega
    · rfl
    · rfl
    · omega

/-- **`can_fully_fill` is this loop.** -/
theorem canFullyFill_eq (hmarket : taker.type ≠ .market) :
    s.canFullyFill taker =
      if s.bestIdx taker.side.opposite < 0 then .ok (taker.qty == 0)
      else s.sumLevels taker (s.scanOrder taker.side) 0 := by
  rw [canFullyFill]
  cases hside : taker.side with
  | buy =>
    dsimp only
    rw [fillableUp_eq hmarket hside]
    rfl
  | sell =>
    dsimp only
    rw [fillableDown_eq hmarket hside]
    rfl

end OrderBookV2

/-! ### What it takes for the sums to fit -/

/-- The quantity at the prices down to each one that the test comes to fits in 64 bits. -/
def Book.SumsFit (b : Book) (req : OrderRequest) : Prop :=
  ∀ o ∈ b.side req.side.opposite, req.accepts o.price = true →
    qtyAhead req.side.opposite.ahead o.price (b.side req.side.opposite) < req.qty.toNat →
    qtyAhead req.side.opposite.ahead o.price (b.side req.side.opposite) +
      qtyAt o.price (b.side req.side.opposite) < 2 ^ 64

instance (b : Book) (req : OrderRequest) : Decidable (b.SumsFit req) :=
  List.decidableBAll (fun o : Order ℤ OrderId => req.accepts o.price = true →
    qtyAhead req.side.opposite.ahead o.price (b.side req.side.opposite) < req.qty.toNat →
    qtyAhead req.side.opposite.ahead o.price (b.side req.side.opposite) +
      qtyAt o.price (b.side req.side.opposite) < 2 ^ 64) _

/-- A buy order at the last price of `int64_t` finds enough before the level array leaves the type, or
the array does not leave it. -/
def OrderBookV2.ScanFits (s : OrderBookV2) (req : OrderRequest) : Prop :=
  req.side = .buy → req.price = 2 ^ 63 - 1 →
    s.base + s.levels.length ≤ 2 ^ 63 ∨ s.book.asks = [] ∨ req.qty.toNat ≤ totalQty s.book.asks

instance (s : OrderBookV2) (req : OrderRequest) : Decidable (s.ScanFits req) :=
  inferInstanceAs (Decidable (_ → _ → _ ∨ _ ∨ _))

/-- Every level total is exact. -/
def ExactTotals (s : OrderBookV2) (c : Layout) : Prop := ∀ i, (s.level i).totalQty.toNat = totalQty (s.queue c i)

theorem Side.ahead_irrefl (side : Side) (p : ℤ) : side.ahead p p = false := by
  cases side <;> simp [Side.ahead]

theorem Side.ahead_asymm {side : Side} {p q : ℤ} (h : side.ahead p q = true) : side.ahead q p = false := by
  cases side <;> simp only [Side.ahead, decide_eq_true_eq, decide_eq_false_iff_not] at h ⊢ <;> omega

theorem Side.ne_of_ahead {side : Side} {p q : ℤ} (h : side.ahead p q = true) : p ≠ q := by
  rintro rfl
  rw [Side.ahead_irrefl] at h
  cases h

/-! ### The loop -/

/-- The orders of the level that comes next, in what rests from the front of the loop on. -/
theorem queue_around {side : Side} {i : ℕ} {is : List ℕ} {front : List (Order ℤ OrderId)}
    (hworse : ∀ j ∈ is, side.ahead (s.base + i) (s.base + j) = true)
    (hfront : ∀ o ∈ front, side.ahead o.price (s.base + i) = true) :
    qtyAhead side.ahead (s.base + i) (front ++ (i :: is).flatMap (s.queue c)) = totalQty front ∧
      qtyAt (s.base + i) (front ++ (i :: is).flatMap (s.queue c)) = totalQty (s.queue c i) := by
  have hback : ∀ o ∈ is.flatMap (s.queue c), side.ahead (s.base + i) o.price = true := by
    intro o ho
    obtain ⟨j, hj, ho⟩ := List.mem_flatMap.mp ho
    rw [price_of_mem_queue ho]
    exact hworse j hj
  have hlevel : ∀ o ∈ s.queue c i, o.price = s.base + i := fun o ho => price_of_mem_queue ho
  rw [List.flatMap_cons]
  exact ⟨qtyAhead_around (side.ahead_irrefl _) hfront hlevel fun o ho => Side.ahead_asymm (hback o ho),
    qtyAt_around (fun o ho => Side.ne_of_ahead (hfront o ho)) hlevel fun o ho => (Side.ne_of_ahead (hback o ho)).symm⟩

/-- **The invariant of the loop**: it has summed the orders `front`, and comes to the levels `is`. -/
structure Scanning (s : OrderBookV2) (c : Layout) (taker : OrderRequest) (front : List (Order ℤ OrderId))
    (available : Quantity) (is : List ℕ) : Prop where
  /-- The levels get worse. -/
  worse : is.Pairwise fun i j : ℕ => taker.side.opposite.ahead (s.base + i) (s.base + j) = true
  /-- They exist. -/
  inside : ∀ i ∈ is, i < s.levels.length
  /-- They are worse than what has been summed. -/
  ahead : ∀ o ∈ front, ∀ i ∈ is, taker.side.opposite.ahead o.price (s.base + (i : ℕ)) = true
  /-- The sum is exact. -/
  sum : available.toNat = totalQty front
  /-- It has not been enough. -/
  more : front ≠ [] → available < taker.qty
  /-- At each price that the loop comes to the quantity down to it fits in 64 bits. -/
  sums : ∀ o ∈ is.flatMap (s.queue c), taker.accepts o.price = true →
    qtyAhead taker.side.opposite.ahead o.price (front ++ is.flatMap (s.queue c)) < taker.qty.toNat →
    qtyAhead taker.side.opposite.ahead o.price (front ++ is.flatMap (s.queue c)) +
      qtyAt o.price (front ++ is.flatMap (s.queue c)) < 2 ^ 64
  /-- The price of each level that it comes to is an `int64_t`. -/
  price : ∀ before (i : ℕ) after, is = before ++ i :: after →
    (∀ j ∈ before, taker.accepts (s.base + (j : ℕ)) = true) →
    (before = [] ∨ totalQty (front ++ before.flatMap (s.queue c)) < taker.qty.toNat) → InI64 (s.base + i)

variable {front : List (Order ℤ OrderId)} {available : Quantity} {i : ℕ} {is : List ℕ}

/-- The price of the next level does not overflow. -/
theorem Scanning.inI64 (h : Scanning s c taker front available (i :: is)) : InI64 (s.base + i) :=
  h.price [] i is rfl (fun _ hj => absurd hj List.not_mem_nil) (Or.inl rfl)

/-- **The next addition does not wrap around.** -/
theorem Scanning.add_fits (h : Scanning s c taker front available (i :: is)) (hexact : ExactTotals s c)
    (hok : taker.accepts (s.base + i) = true) : available.toNat + (s.level i).totalQty.toNat < 2 ^ 64 := by
  have hword := (s.level i).totalQty.toNat_lt
  have hword' := available.toNat_lt
  -- the first level is added to nothing, and an empty one adds nothing
  rcases eq_or_ne front [] with rfl | hne
  · rw [h.sum, totalQty_nil]
    omega
  cases hq : s.queue c i with
  | nil =>
    rw [hexact i, hq, totalQty_nil]
    omega
  | cons o os =>
    have ho : o ∈ s.queue c i := by
      rw [hq]
      exact List.mem_cons_self
    obtain ⟨hsumAhead, hsumAt⟩ := queue_around (c := c) (List.pairwise_cons.mp h.worse).1
      fun o ho => h.ahead o ho i List.mem_cons_self
    have hbelow := UInt64.lt_iff_toNat_lt.mp (h.more hne)
    have hsum := h.sum
    have hfits := h.sums o (List.mem_flatMap.mpr ⟨i, List.mem_cons_self, ho⟩)
    rw [price_of_mem_queue ho, hsumAhead, hsumAt] at hfits
    have := hfits hok (by omega)
    rw [hexact i]
    omega

/-- **The next level is summed**, and is not enough. -/
theorem Scanning.next (h : Scanning s c taker front available (i :: is)) (hexact : ExactTotals s c)
    (hok : taker.accepts (s.base + i) = true) (hmore : available + (s.level i).totalQty < taker.qty) :
    Scanning s c taker (front ++ s.queue c i) (available + (s.level i).totalQty) is := by
  obtain ⟨hnext, hworse⟩ := List.pairwise_cons.mp h.worse
  have hsum : (available + (s.level i).totalQty).toNat = totalQty (front ++ s.queue c i) := by
    rw [UInt64.toNat_add, Nat.mod_eq_of_lt (h.add_fits hexact hok), h.sum, hexact i, totalQty_append]
  have hassoc : ∀ js : List ℕ, front ++ s.queue c i ++ js.flatMap (s.queue c) =
      front ++ (i :: js).flatMap (s.queue c) := by
    intro js
    rw [List.flatMap_cons, List.append_assoc]
  refine ⟨hworse, fun j hj => h.inside j (List.mem_cons_of_mem i hj), fun o ho j hj => ?_, hsum, fun _ => hmore,
    fun o ho => ?_, fun before j after hsplit hacc hleft => ?_⟩
  · rcases List.mem_append.mp ho with ho | ho
    · exact h.ahead o ho j (List.mem_cons_of_mem i hj)
    · rw [price_of_mem_queue ho]
      exact hnext j hj
  · rw [hassoc]
    refine h.sums o ?_
    rw [List.flatMap_cons]
    exact List.mem_append_right _ ho
  · refine h.price (i :: before) j after (by rw [hsplit]; rfl) (fun k hk => ?_) (Or.inr ?_)
    · rcases List.mem_cons.mp hk with rfl | hk
      · exact hok
      · exact hacc k hk
    · rw [← hassoc]
      rcases hleft with rfl | hleft
      · rw [List.flatMap_nil, List.append_nil, ← hsum]
        exact UInt64.lt_iff_toNat_lt.mp hmore
      · exact hleft

/-- **The loop answers**, and no addition of it wraps around. -/
theorem Scanning.fits (h : Scanning s c taker front available is) (hexact : ExactTotals s c) :
    (∃ b, s.sumLevels taker is available = .ok b) ∧
      ∀ x ∈ s.additions taker is available, x.1.toNat + x.2.toNat < 2 ^ 64 := by
  induction is generalizing front available with
  | nil => exact ⟨⟨false, rfl⟩, fun x hx => absurd hx List.not_mem_nil⟩
  | cons i is ih =>
    rw [sumLevels, additions, i64, if_pos h.inI64, ok_bind]
    by_cases hok : taker.accepts (s.base + i) = true
    · have hadd := h.add_fits hexact hok
      rw [if_pos hok, if_pos hok, levelAt_ok (h.inside i List.mem_cons_self), ok_bind]
      dsimp only
      by_cases henough : taker.qty ≤ available + (s.level i).totalQty
      · rw [if_pos henough, if_pos henough]
        refine ⟨⟨true, rfl⟩, fun x hx => ?_⟩
        obtain rfl := List.mem_singleton.mp hx
        exact hadd
      · rw [if_neg henough, if_neg henough]
        obtain ⟨hrun, hrest⟩ := ih (h.next hexact hok (UInt64.not_le.mp henough))
        refine ⟨hrun, fun x hx => ?_⟩
        rcases List.mem_cons.mp hx with rfl | hx
        · exact hadd
        · exact hrest x hx
    · rw [if_neg hok, if_neg hok]
      exact ⟨⟨false, rfl⟩, fun x hx => absurd hx List.not_mem_nil⟩

/-! ### The test -/

/-- What the levels visited hold is the other side. -/
theorem Settled.scanOrder_orders (h : Settled s c) (side : Side) {k : ℕ} (hk : s.bestIdx side.opposite = k) :
    (s.bookOf c).side side.opposite = (s.scanOrder side).flatMap (s.queue c) := by
  cases side with
  | buy =>
    have hk : s.bestAskIdx = k := hk
    have hlive := h.ask (by omega)
    rw [hk, Int.toNat_natCast] at hlive
    rw [scanOrder, hk, Int.toNat_natCast, ← up_eq_flatMap, up_first (h.lt_length hlive)]
    exact h.asks_split hk
  | sell =>
    have hk : s.bestBidIdx = k := hk
    rw [scanOrder, hk, Int.toNat_natCast, ← down_eq_flatMap]
    exact h.bids_split hk

/-- The levels visited exist, and their prices get worse. -/
theorem Settled.scanOrder_worse (h : Settled s c) (side : Side) {k : ℕ} (hk : s.bestIdx side.opposite = k) :
    (s.scanOrder side).Pairwise (fun i j : ℕ => side.opposite.ahead (s.base + i) (s.base + j) = true) ∧
      ∀ i ∈ s.scanOrder side, i < s.levels.length := by
  cases side with
  | buy =>
    refine ⟨?_, fun i hi => ?_⟩
    · have hlt : (List.range' s.bestAskIdx.toNat (s.levels.length - s.bestAskIdx.toNat)).Pairwise (· < ·) :=
        List.pairwise_lt_range'
      exact hlt.imp fun hij => decide_eq_true (by omega)
    · rw [scanOrder, List.mem_range'_1] at hi
      omega
  | sell =>
    have hk : s.bestBidIdx = k := hk
    have hlive := h.bid (by omega)
    have hlt := h.lt_length hlive
    refine ⟨?_, fun i hi => ?_⟩
    · rw [scanOrder, List.pairwise_reverse]
      refine List.pairwise_lt_range.imp fun hij => ?_
      exact decide_eq_true (by omega)
    · rw [scanOrder, List.mem_reverse, List.mem_range] at hi
      omega

/-- **The level prices that a buy order comes to.** -/
theorem Settled.scan_price_buy (h : Settled s c) (hmarket : taker.type ≠ .market) (hside : taker.side = .buy)
    (hprice : InI64 taker.price) (hscan : s.ScanFits taker) {k : ℕ} (hk : s.bestAskIdx = k) {before : List ℕ} {i : ℕ}
    {after : List ℕ} (hsplit : s.scanOrder .buy = before ++ i :: after)
    (hacc : ∀ j ∈ before, taker.accepts (s.base + (j : ℕ)) = true)
    (hleft : before = [] ∨ totalQty (before.flatMap (s.queue c)) < taker.qty.toNat) : InI64 (s.base + i) := by
  have hlive := h.ask (by omega)
  rw [hk, Int.toNat_natCast] at hlive
  have hfirst := h.price k hlive
  have hlt := h.lt_length hlive
  rw [scanOrder, hk, Int.toNat_natCast] at hsplit
  obtain ⟨n, hn, hbefore, hafter⟩ := List.range'_eq_append_iff.mp hsplit
  rw [Nat.mul_one] at hafter
  obtain ⟨rfl, hmore, hafter⟩ := List.range'_eq_cons_iff.mp hafter.symm
  rcases Nat.eq_zero_or_pos n with rfl | hpos
  · exact hfirst
  -- the level before this one is within the limit
  have hprev : k + (n - 1) ∈ before := by
    rw [hbefore, List.mem_range'_1]
    omega
  have hlimit := hacc _ hprev
  rw [accepts_buy hmarket hside, decide_eq_true_eq] at hlimit
  refine ⟨by have := hfirst.1; omega, ?_⟩
  by_contra hbeyond
  have hlast : taker.price = 2 ^ 63 - 1 := by
    have := hprice.2
    omega
  have hne : before ≠ [] := List.ne_nil_of_mem hprev
  have hleft := hleft.resolve_left hne
  have hasks : (s.bookOf c).asks = (s.scanOrder .buy).flatMap (s.queue c) := h.scanOrder_orders .buy hk
  rcases hscan hside hlast with harray | hnone | hcover
  · omega
  · rw [h.book_eq, hasks] at hnone
    have hk' : k ∈ s.scanOrder .buy := by
      rw [scanOrder, hk, Int.toNat_natCast, List.mem_range'_1]
      omega
    exact hlive (queue_eq_nil.mp (List.flatMap_eq_nil_iff.mp hnone k hk'))
  · -- no order rests from here on
    have hrest : ((k + n) :: after).flatMap (s.queue c) = [] := by
      refine List.flatMap_eq_nil_iff.mpr fun j hj => ?_
      have hj : k + n ≤ j := by
        rcases List.mem_cons.mp hj with rfl | hj
        · omega
        · rw [hafter, List.mem_range'_1] at hj
          omega
      by_contra hq
      have := (h.price j (queue_eq_nil.not.mp hq)).2
      omega
    have hall : s.scanOrder .buy = before ++ (k + n) :: after := by
      rw [scanOrder, hk, Int.toNat_natCast]
      exact hsplit
    rw [h.book_eq, hasks, hall, List.flatMap_append, hrest, List.append_nil] at hcover
    omega

/-- **The level prices that a sell order comes to** lie between the base and the best bid. -/
theorem Settled.scan_price_sell (h : Settled s c) (hbase : InI64 s.base) {k : ℕ} (hk : s.bestBidIdx = k) {i : ℕ}
    (hi : i ∈ s.scanOrder .sell) : InI64 (s.base + i) := by
  have hlive := h.bid (by omega)
  rw [hk, Int.toNat_natCast] at hlive
  have hfirst := (h.price k hlive).2
  have := hbase.1
  rw [scanOrder, hk, Int.toNat_natCast, List.mem_reverse, List.mem_range] at hi
  rw [InI64]
  omega

/-- **`can_fully_fill` answers without leaving its types**: no level price overflows, and no addition to
`available` wraps around. -/
theorem Settled.canFullyFill_fits (h : Settled s c) (hexact : ExactTotals s c) (hmarket : taker.type ≠ .market)
    (hprice : InI64 taker.price) (hbase : s.haveBase = true → InI64 s.base) (hsums : (s.bookOf c).SumsFit taker)
    (hscan : s.ScanFits taker) :
    (∃ b, s.canFullyFill taker = .ok b) ∧ ∀ x ∈ s.fillAdditions taker, x.1.toNat + x.2.toNat < 2 ^ 64 := by
  rw [canFullyFill_eq hmarket, fillAdditions]
  by_cases hneg : s.bestIdx taker.side.opposite < 0
  · rw [if_pos hneg, if_pos hneg]
    exact ⟨⟨_, rfl⟩, fun x hx => nomatch hx⟩
  rw [if_neg hneg, if_neg hneg]
  obtain ⟨k, hk⟩ := Int.eq_ofNat_of_zero_le (not_lt.mp hneg)
  have horders := h.scanOrder_orders taker.side hk
  obtain ⟨hworse, hin⟩ := h.scanOrder_worse taker.side hk
  have hopen : s.haveBase = true := by
    by_contra hclosed
    have hlen := h.lt_length (h.toLive.bestIdx hk)
    rw [h.unopened (Bool.not_eq_true _ ▸ hclosed)] at hlen
    exact absurd hlen (Nat.not_lt_zero _)
  have hscanning : Scanning s c taker [] 0 (s.scanOrder taker.side) := by
    refine ⟨hworse, hin, fun o ho => absurd ho List.not_mem_nil, rfl, fun hne => absurd rfl hne, fun o ho => ?_,
      fun before i after hsplit hacc hleft => ?_⟩
    · rw [List.nil_append, ← horders]
      rw [← horders] at ho
      exact hsums o ho
    · rw [List.nil_append] at hleft
      cases hside : taker.side with
      | buy =>
        rw [hside] at hk hsplit
        exact h.scan_price_buy hmarket hside hprice hscan hk hsplit hacc hleft
      | sell =>
        rw [hside] at hk hsplit
        refine h.scan_price_sell (hbase hopen) hk ?_
        rw [hsplit]
        exact List.mem_append_right _ List.mem_cons_self
  exact hscanning.fits hexact

end MatchingEngine
