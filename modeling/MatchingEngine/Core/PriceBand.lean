import MatchingEngine.Core.Arithmetic

/-!
# Runs within a band of prices

Three things can go wrong in a run of calls whose ids are new: a price computation overflows, the
price axis refuses a price, or the arena is exhausted. This module says when none of them does, from
the calls alone: all prices of orders that may rest are in a band (`Within`), the band and a window
fit on the largest axis (`HasRoom`), and there are no more such orders than cells.

The invariant is that the axis leaves the band by `window / 2 + 1` levels at most below it, and by
`window - window / 2` at most above it (`Confined`). It is opened around a price of the band; growing
at the front adds a quarter of the window below such a price and leaves the other end where it is,
and growing at the back does the opposite.
-/

namespace MatchingEngine

open Foundation OrderBookV2

variable {s s' : OrderBookV2} {c : Layout} {req : OrderRequest} {op : Call} {ops : List Call} {lo hi p : ℤ}

/-! ### The conditions -/

/-- The call adds an order of a kind that may come to rest. -/
def Call.mayRest : Call → Bool
  | .add req => req.type = .limit ∨ req.type = .postOnly
  | .cancel _ | .reduce _ _ => false

/-- The id that a call submits. -/
def Call.newId : Call → Option OrderId
  | .add req => if req.type = .cancel then none else some req.id
  | .cancel _ | .reduce _ _ => none

/-- An order that may rest has a price from `lo` to `hi`. -/
def Call.Within (lo hi : ℤ) : Call → Prop
  | .add req => InI64 req.price ∧ (req.type = .limit ∨ req.type = .postOnly → lo ≤ req.price ∧ req.price ≤ hi)
  | .cancel _ | .reduce _ _ => True

instance (lo hi : ℤ) : (op : Call) → Decidable (op.Within lo hi)
  | .add req => inferInstanceAs (Decidable
      (InI64 req.price ∧ (req.type = .limit ∨ req.type = .postOnly → lo ≤ req.price ∧ req.price ≤ hi)))
  | .cancel _ | .reduce _ _ => inferInstanceAs (Decidable True)

/-- A band of prices, and half a window on both of its sides, fit on a price axis. -/
structure HasRoom (lo hi window : ℤ) : Prop where
  /-- There can be an axis. -/
  nonneg : 0 ≤ window
  /-- It need not have more than `kMaxLevels` levels. -/
  levels : hi - lo + window + 2 ≤ kMaxLevels
  /-- Its first price is an `int64_t`, -/
  low : -2 ^ 63 ≤ lo - window / 2 - 1
  /-- and so is its last one. -/
  high : hi + (window - window / 2) < 2 ^ 63

/-- A window that has room beside a price can be opened. -/
theorem HasRoom.windowFits {window : ℤ} (h : HasRoom lo hi window) (hp : lo ≤ p ∧ p ≤ hi) : WindowFits window := by
  obtain ⟨hw, hlevels, -, -⟩ := h
  simp only [kMaxLevels] at hlevels
  refine ⟨hw, ?_⟩
  rw [maxSize]
  omega

/-- **The axis stays near the band.** -/
structure Confined (lo hi : ℤ) (s : OrderBookV2) : Prop where
  /-- Where it begins. -/
  base : s.haveBase = true → lo - s.initialWindow / 2 - 1 ≤ s.base
  /-- Where it ends. -/
  top : s.haveBase = true → s.base + s.levels.length ≤ hi + (s.initialWindow - s.initialWindow / 2) + 1

theorem Confined.frame (h : Confined lo hi s) (hf : Frame s s') : Confined lo hi s' := by
  constructor
  · rw [hf.haveBase, hf.base, hf.window]
    exact h.base
  · rw [hf.haveBase, hf.base, hf.window, hf.length]
    exact h.top

/-- An axis that is like the one before. -/
theorem Confined.congr (h : Confined lo hi s) (hopen : s'.haveBase = s.haveBase) (hbase : s'.base = s.base)
    (hlen : s'.levels.length = s.levels.length) (hw : s'.initialWindow = s.initialWindow) : Confined lo hi s' := by
  constructor
  · rw [hopen, hbase, hw]
    exact h.base
  · rw [hopen, hbase, hw, hlen]
    exact h.top

/-! ### The price axis -/

/-- No price computation overflows. -/
theorem Confined.axisFits (h : Confined lo hi s) (hroom : HasRoom lo hi s.initialWindow) (hp : lo ≤ p ∧ p ≤ hi) :
    s.AxisFits p := by
  have hwindow := hroom.windowFits hp
  obtain ⟨hw, hlevels, hlow, hhigh⟩ := hroom
  have hquarter := Int.tdiv_eq_ediv_of_nonneg (b := 4) hw
  have hhalf := Int.tdiv_eq_ediv_of_nonneg (b := 2) hw
  simp only [kMaxLevels] at hlevels
  rw [AxisFits]
  split_ifs with hopen
  · have hbase := h.base hopen
    have htop := h.top hopen
    refine ⟨by omega, fun hlt => ⟨by omega, fun _ => by omega⟩⟩
  · exact ⟨hwindow, by rw [InI64]; omega⟩

/-- No price is refused. -/
theorem Confined.placeable (h : Confined lo hi s) (hroom : HasRoom lo hi s.initialWindow) (hp : lo ≤ p ∧ p ≤ hi) :
    s.Placeable p := by
  intro hopen
  obtain ⟨hw, hlevels, -, -⟩ := hroom
  have hquarter := Int.tdiv_eq_ediv_of_nonneg (b := 4) hw
  have hbase := h.base hopen
  have htop := h.top hopen
  rw [Reaches]
  split_ifs with hlt
  · omega
  · exact Or.inr (by omega)

/-- **The axis stays near the band when it grows.** -/
theorem Confined.ensureIndexForPrice (h : Confined lo hi s) (hfits : WindowFits s.initialWindow) (hp : lo ≤ p ∧ p ≤ hi)
    {idx : Except Exn ℤ} (hr : s.ensureIndexForPrice p = .ok (idx, s')) :
    Confined lo hi s' ∧ s'.initialWindow = s.initialWindow := by
  have hw := hfits.1
  have hquarter := Int.tdiv_eq_ediv_of_nonneg (b := 4) hw
  have hhalf := Int.tdiv_eq_ediv_of_nonneg (b := 2) hw
  rcases placing_of_ensureIndexForPrice hr with ⟨-, hno, -⟩ | ⟨s₁, hopening, hplace⟩
  · exact absurd hfits hno
  have hfirst : s₁.haveBase = true ∧ s₁.initialWindow = s.initialWindow ∧ Confined lo hi s₁ := by
    cases hopening with
    | opened ho => exact ⟨ho, rfl, h⟩
    | fresh ho _ hbase =>
      refine ⟨rfl, rfl, fun _ => ?_, fun _ => ?_⟩
      · show lo - s.initialWindow / 2 - 1 ≤ p - s.initialWindow.tdiv 2
        omega
      · show p - s.initialWindow.tdiv 2 + ((List.replicate s.initialWindow.toNat ({} : PriceLevel)).length : ℤ) ≤
          hi + (s.initialWindow - s.initialWindow / 2) + 1
        rw [List.length_replicate]
        omega
  obtain ⟨hopen, hwindow, hconf⟩ := hfirst
  rw [← hwindow] at hw hquarter ⊢
  have hbase := hconf.base hopen
  have htop := hconf.top hopen
  cases hplace with
  | found | belowMax | aboveMax => exact ⟨hconf, rfl⟩
  | front hneg =>
    have hshift : frontShift s₁ p = s₁.base - p + s₁.initialWindow / 4 + 1 := by rw [frontShift]; omega
    refine ⟨⟨fun _ => ?_, fun _ => ?_⟩, rfl⟩
    · show lo - s₁.initialWindow / 2 - 1 ≤ s₁.base - frontShift s₁ p
      omega
    · show s₁.base - frontShift s₁ p + ((List.replicate (frontShift s₁ p).toNat ({} : PriceLevel) ++ s₁.levels).length : ℤ) ≤
        hi + (s₁.initialWindow - s₁.initialWindow / 2) + 1
      rw [List.length_append, List.length_replicate]
      omega
  | back hlen =>
    have hsize : (backSize s₁ p : ℤ) = p - s₁.base + s₁.initialWindow / 4 + 1 := by rw [backSize]; omega
    refine ⟨⟨fun _ => hbase, fun _ => ?_⟩, rfl⟩
    show s₁.base + ((s₁.levels ++ List.replicate (backSize s₁ p - s₁.levels.length) ({} : PriceLevel)).length : ℤ) ≤
      hi + (s₁.initialWindow - s₁.initialWindow / 2) + 1
    rw [List.length_append, List.length_replicate]
    omega

/-! ### Resting an order -/

/-- Linking an order leaves the axis alone. -/
theorem Settled.pushBackOrder_axis (h : Settled s c) {idx : ℤ} (hl : Leveled s p idx) {side : Side} {thrown : Option Exn}
    (hr : s.pushBackOrder idx side req = .ok (thrown, s')) :
    s'.haveBase = s.haveBase ∧ s'.base = s.base ∧ s'.levels.length = s.levels.length ∧ s'.initialWindow = s.initialWindow := by
  obtain ⟨i, rfl⟩ := Int.eq_ofNat_of_zero_le hl.nonneg
  have hi : i < s.levels.length := by
    have := hl.lt
    omega
  rcases h.toRepresents.pushBackOrder hi side req with ⟨x, fl, bump, hlink, -⟩ | ⟨hpush, -⟩
  · cases hlink.symm.trans hr
    exact ⟨rfl, rfl, List.length_set, rfl⟩
  · cases hpush.symm.trans hr
    exact ⟨rfl, rfl, rfl, rfl⟩

theorem noteBest_eq (s : OrderBookV2) (side : Side) (idx : ℤ) :
    ∃ bid ask, s.noteBest side idx = { s with bestBidIdx := bid, bestAskIdx := ask } := by
  cases side with
  | buy =>
    rw [noteBest]
    split_ifs
    · exact ⟨idx, s.bestAskIdx, rfl⟩
    · exact ⟨s.bestBidIdx, s.bestAskIdx, rfl⟩
  | sell =>
    rw [noteBest]
    split_ifs
    · exact ⟨s.bestBidIdx, idx, rfl⟩
    · exact ⟨s.bestBidIdx, s.bestAskIdx, rfl⟩

theorem Settled.rest_confined (h : Settled s c) (hconf : Confined lo hi s) (hw : WindowFits s.initialWindow)
    (hp : lo ≤ req.price ∧ req.price ≤ hi) {thrown : Option Exn} (hr : s.rest req = .ok (thrown, s')) :
    Confined lo hi s' ∧ s'.initialWindow = s.initialWindow := by
  rw [OrderBookV2.rest] at hr
  obtain ⟨⟨idx, s₁⟩, hidx, hr⟩ := bind_eq_ok.mp hr
  obtain ⟨hconf₁, hw₁⟩ := hconf.ensureIndexForPrice hw hp hidx
  cases idx with
  | error e =>
    cases hr
    exact ⟨hconf₁, hw₁⟩
  | ok idx =>
    obtain ⟨c₁, hre, hok, -⟩ := (h.ensureIndexForPrice req.price).elim hidx
    obtain ⟨⟨thrown', s₂⟩, hpush, hr⟩ := bind_eq_ok.mp hr
    obtain ⟨hopen, hbase, hlen, hw₂⟩ := hre.settled.pushBackOrder_axis (hok idx rfl) hpush
    have hconf₂ := hconf₁.congr hopen hbase hlen hw₂
    cases thrown' with
    | some e =>
      cases hr
      exact ⟨hconf₂, hw₂.trans hw₁⟩
    | none =>
      cases hr
      obtain ⟨bid, ask, hbest⟩ := noteBest_eq s₂ req.side idx
      rw [hbest]
      exact ⟨hconf₂.congr rfl rfl rfl rfl, hw₂.trans hw₁⟩

/-! ### The fill-or-kill test -/

/-- All prices of the axis are `int64_t`. -/
theorem Settled.inI64_levels (h : Settled s c) (hconf : Confined lo hi s) (hroom : HasRoom lo hi s.initialWindow) {j : ℕ}
    (hj : j < s.levels.length) : InI64 (s.base + j) := by
  have hopen : s.haveBase = true := by
    by_contra hclosed
    rw [h.unopened (by simpa using hclosed)] at hj
    exact absurd hj (Nat.not_lt_zero j)
  have hbase := hconf.base hopen
  have htop := hconf.top hopen
  have hlow := hroom.low
  have hhigh := hroom.high
  rw [InI64]
  omega

theorem fillableUp_ok (hin : ∀ j, j < s.levels.length → InI64 (s.base + (j : ℤ))) (taker : OrderRequest) (left i : ℕ)
    (available : Quantity) (hi : i + left ≤ s.levels.length) : ∃ b, s.fillableUp taker left i available = .ok b := by
  induction left generalizing i available with
  | zero => exact ⟨false, rfl⟩
  | succ left ih =>
    rw [fillableUp, i64_ok (hin i (by omega)), ok_bind]
    split_ifs
    · exact ⟨false, rfl⟩
    · rw [levelAt_ok (by omega), ok_bind]
      dsimp only
      split_ifs
      · exact ⟨true, rfl⟩
      · exact ih _ _ (by omega)

theorem fillableDown_ok (hin : ∀ j, j < s.levels.length → InI64 (s.base + (j : ℤ))) (taker : OrderRequest) (i : ℕ)
    (available : Quantity) (hi : i ≤ s.levels.length) : ∃ b, s.fillableDown taker i available = .ok b := by
  induction i generalizing available with
  | zero => exact ⟨false, rfl⟩
  | succ i ih =>
    rw [fillableDown, i64_ok (hin i (by omega)), ok_bind]
    split_ifs
    · exact ⟨false, rfl⟩
    · rw [levelAt_ok (by omega), ok_bind]
      dsimp only
      split_ifs
      · exact ⟨true, rfl⟩
      · exact ih _ (by omega)

/-- **`can_fully_fill` does not overflow** on an axis of `int64_t` prices. -/
theorem Settled.canFullyFill_ok (h : Settled s c) (hin : ∀ j, j < s.levels.length → InI64 (s.base + (j : ℤ)))
    (taker : OrderRequest) : ∃ b, s.canFullyFill taker = .ok b := by
  rw [OrderBookV2.canFullyFill]
  cases taker.side with
  | buy =>
    dsimp only
    split_ifs with hneg
    · exact ⟨_, rfl⟩
    · have hlt := h.lt_length (h.ask (not_lt.mp hneg))
      exact fillableUp_ok hin taker _ _ _ (by omega)
  | sell =>
    dsimp only
    split_ifs with hneg
    · exact ⟨_, rfl⟩
    · have hlt := h.lt_length (h.bid (not_lt.mp hneg))
      exact fillableDown_ok hin taker _ _ hlt

/-! ### One call -/

/-- How a call within the band ends. -/
structure Returns (lo hi : ℤ) (s : OrderBookV2) (op : Call) (r : CallResult) : Prop where
  /-- Nothing is thrown, unless an order might rest and the arena is exhausted. -/
  thrown : ∀ e, r.thrown = some e → e = arenaExhausted ∧ op.mayRest = true
  /-- The axis. -/
  confined : Confined lo hi r.book
  /-- The window does not change. -/
  window : r.book.initialWindow = s.initialWindow

theorem Settled.add_within (h : Settled s c) (hconf : Confined lo hi s) (hroom : HasRoom lo hi s.initialWindow)
    (hop : (Call.add req).Within lo hi) : ∃ r, s.call (.add req) = .ok r ∧ Returns lo hi s (.add req) r := by
  by_cases hrests : (s.bookOf c).Rests req
  · obtain ⟨s₁, c₁, taker, ts, hf, hs₁, hprice, hrun⟩ := h.add_rests hrests
    have hp : lo ≤ taker.price ∧ taker.price ≤ hi := by
      rw [hprice]
      exact hop.2 (hrests.imp And.left And.left)
    have hroom₁ : HasRoom lo hi s₁.initialWindow := by rwa [hf.window]
    have hconf₁ := hconf.frame hf
    have hw : InI64 s₁.initialWindow := by
      obtain ⟨hw, hlevels, -, -⟩ := hroom₁
      simp only [kMaxLevels] at hlevels
      rw [InI64]
      omega
    obtain ⟨⟨thrown, s₂⟩, hr⟩ := hs₁.rest_fits hw (by rw [hprice]; exact hop.1) (hconf₁.axisFits hroom₁ hp)
    obtain ⟨hconf₂, hw₂⟩ := hs₁.rest_confined hconf₁ (hroom₁.windowFits hp) hp hr
    refine ⟨⟨s₂, .trades ts, thrown⟩, ?_, fun e he => ?_, hconf₂, hw₂.trans hf.window⟩
    · rw [OrderBookV2.call, hrun, hr]
      rfl
    · rcases hs₁.rest_throws (hroom₁.windowFits hp) hr he with hoff | hfull
      · exact absurd (hconf₁.placeable hroom₁ hp) ((hs₁.rest_refuses_iff hr).mp ⟨e, he, hoff⟩)
      · exact ⟨hfull, decide_eq_true (hrests.imp And.left And.left)⟩
  · have hfok : ¬ (req.type = .fok ∧ ∃ u, s.canFullyFill req = .error u) := by
      rintro ⟨-, u, hu⟩
      obtain ⟨b, hb⟩ := h.canFullyFill_ok (fun j hj => h.inI64_levels hconf hroom hj) req
      rw [hu] at hb
      cases hb
    obtain ⟨r, hr, hthrown, hf⟩ := (h.add_takes hrests).exists_ok fun _ => hfok
    refine ⟨⟨r.book, .trades r.trades, r.thrown⟩, ?_, fun e he => ?_, hconf.frame hf, hf.window⟩
    · rw [OrderBookV2.call, hr]
      rfl
    · cases hthrown.symm.trans he

/-- **A call within the band** does not overflow, and only a full arena makes it throw. -/
theorem Settled.call_within (h : Settled s c) (hconf : Confined lo hi s) (hroom : HasRoom lo hi s.initialWindow)
    (hop : op.Within lo hi) : ∃ r, s.call op = .ok r ∧ Returns lo hi s op r := by
  cases op with
  | add req => exact h.add_within hconf hroom hop
  | cancel id =>
    obtain ⟨found, s₁, c₁, hrun, hl, -⟩ := h.cancel id
    refine ⟨⟨s₁, .found found, none⟩, ?_, fun _ he => absurd he (by simp), hconf.frame hl.frame, hl.frame.window⟩
    rw [OrderBookV2.call, hrun]
    rfl
  | reduce id delta =>
    obtain ⟨found, s₁, c₁, hrun, hl, -⟩ := h.reduce id delta
    refine ⟨⟨s₁, .found found, none⟩, ?_, fun _ he => absurd he (by simp), hconf.frame hl.frame, hl.frame.window⟩
    rw [OrderBookV2.call, hrun]
    rfl

/-! ### The reference book -/

theorem length_taken_le (b : Book) (req : OrderRequest) : (b.taken req).orders.length ≤ b.orders.length := by
  have hlen := length_orders_withSide b req.side.opposite (b.take req).rest
  have hle : (b.take req).rest.length ≤ (b.side req.side.opposite).length := length_fill_rest_le ..
  rw [Book.taken]
  omega

theorem length_cancel_le (b : Book) (id : OrderId) : (b.cancel id).2.orders.length ≤ b.orders.length := by
  rw [Book.cancel, Book.orders, Book.orders, List.length_append, List.length_append]
  exact Nat.add_le_add (List.length_filter_le _ _) (List.length_filter_le _ _)

theorem length_reduce_le (b : Book) (id : OrderId) (delta : Quantity) :
    (b.reduce id delta).2.orders.length ≤ b.orders.length := by
  rw [Book.reduce, Book.orders, Book.orders, List.length_append, List.length_append]
  exact Nat.add_le_add (List.length_filterMap_le _ _) (List.length_filterMap_le _ _)

/-- What is done before an order comes to rest leaves no more orders than there were. -/
theorem length_beforeRest_le (b : Book) (req : OrderRequest) : (b.beforeRest req).2.orders.length ≤ b.orders.length := by
  rw [Book.beforeRest]
  split_ifs
  · exact length_taken_le b req
  · exact le_refl _

/-- **A call makes the book at most one order longer**, and only if an order may rest. -/
theorem length_callWith_le (covers : Book → OrderRequest → Bool) (b : Book) (op : Call) :
    (b.callWith covers op).2.orders.length ≤ b.orders.length + if op.mayRest then 1 else 0 := by
  cases op with
  | cancel id => exact length_cancel_le b id
  | reduce id delta => exact length_reduce_le b id delta
  | add req =>
    have htake := length_taken_le b req
    rw [Book.callWith, Book.addWith, Call.mayRest]
    cases htype : req.type with
    | cancel => exact length_cancel_le b req.id
    | market | ioc => exact htake
    | fok =>
      cases hcov : covers b req with
      | true => exact htake
      | false => exact le_refl _
    | postOnly =>
      cases hcross : b.crosses req with
      | true => exact Nat.le_succ _
      | false => exact (length_join b req _).le
    | limit =>
      by_cases hleft : 0 < (b.take req).left
      · have hjoin := length_join (b.taken req) req (b.take req).left
        simp only [if_pos hleft, hjoin]
        simpa using htake
      · simp only [if_neg hleft]
        exact htake.trans (Nat.le_succ _)

/-- An id that rests after a call rested before it, or is that of the call. -/
theorem ids_callWith (covers : Book → OrderRequest → Bool) {b : Book} {op : Call} {id : OrderId}
    (hid : id ∈ (b.callWith covers op).2.ids) : id ∈ b.ids ∨ op.newId = some id := by
  obtain ⟨o, ho, rfl⟩ := List.mem_map.mp hid
  obtain ⟨side, ho⟩ := mem_orders_iff.mp ho
  have hbefore : b.HasAt side o → o.id ∈ b.ids := by
    rintro ⟨o', ho', he, -⟩
    exact he ▸ List.mem_map_of_mem (mem_side_orders ho')
  cases op with
  | cancel id => exact Or.inl (hbefore (Book.hasAt_of_mem (mem_side_cancel.mp ho).1))
  | reduce id delta => exact Or.inl (hbefore (mem_side_reduce ho))
  | add req =>
    rcases mem_side_addWith ho with hat | ⟨htype, -, hid, -⟩
    · exact Or.inl (hbefore hat)
    · right
      rw [Call.newId, if_neg htype, hid]

/-! ### The prices of a book -/

/-- The prices of all resting orders are from `lo` to `hi`. -/
def Priced (lo hi : ℤ) (b : Book) : Prop := ∀ side, ∀ o ∈ b.side side, lo ≤ o.price ∧ o.price ≤ hi

theorem Priced.of_hasAt {b : Book} (h : Priced lo hi b) {side : Side} {o : Order ℤ OrderId} (ho : b.HasAt side o) :
    lo ≤ o.price ∧ o.price ≤ hi := by
  obtain ⟨o', ho', -, hp⟩ := ho
  rw [← hp]
  exact h side o' ho'

/-- Trades are at the prices of resting orders. -/
theorem Priced.trades {b : Book} (h : Priced lo hi b) {covers : Book → OrderRequest → Bool} {req : OrderRequest} {trade : Trade}
    (ht : trade ∈ (b.addWith covers req).1) : lo ≤ trade.price ∧ trade.price ≤ hi := by
  have hfills : trade ∈ b.trades req → lo ≤ trade.price ∧ trade.price ≤ hi := by
    intro ht
    obtain ⟨f, hf, rfl⟩ := List.mem_map.mp ht
    obtain ⟨o, ho, -, hp, -⟩ := order_of_mem_fills hf
    have hprice := h _ o ho
    rw [hp] at hprice
    exact hprice
  rw [Book.addWith] at ht
  cases htype : req.type with
  | cancel | postOnly =>
    rw [htype] at ht
    cases ht
  | fok =>
    rw [htype] at ht
    dsimp only at ht
    split_ifs at ht
    · exact hfills ht
    · cases ht
  | limit | market | ioc =>
    rw [htype] at ht
    exact hfills ht

/-- **They stay there** when the orders that are added have such prices. -/
theorem Priced.callWith {b : Book} (h : Priced lo hi b) (covers : Book → OrderRequest → Bool)
    (hop : ∀ req, op = .add req → req.type ≠ .cancel → lo ≤ req.price ∧ req.price ≤ hi) :
    Priced lo hi (b.callWith covers op).2 := by
  intro side o ho
  cases op with
  | add req =>
    rcases mem_side_addWith ho with hat | ⟨htype, -, -, hp⟩
    · exact h.of_hasAt hat
    · rw [hp]
      exact hop req rfl htype
  | cancel id => exact h side o (mem_side_cancel.mp ho).1
  | reduce id delta => exact h.of_hasAt (mem_side_reduce ho)

/-- What is shown of a side is an `int64_t` where the prices are. -/
theorem Priced.inI64_best {b : Book} (h : Priced lo hi b) (hlo : -2 ^ 63 ≤ lo) (hhi : hi < 2 ^ 63) (side : Side) :
    InI64 ((b.best side).getD 0) := by
  rw [Book.best]
  cases hside : b.side side with
  | nil => decide
  | cons o os =>
    have := h side o (by rw [hside]; exact List.mem_cons_self)
    show InI64 o.price
    rw [InI64]
    omega

/-! ### Runs -/

/-- **A run within the band returns**, from any state near the band. -/
theorem Settled.returning_within (h : Settled s c) (t : Tracked s c) (hconf : Confined lo hi s)
    (hroom : HasRoom lo hi s.initialWindow) (hops : ∀ op ∈ ops, op.Within lo hi) (hids : (ops.filterMap Call.newId).Nodup)
    (hnew : ∀ id ∈ ops.filterMap Call.newId, id ∉ (s.bookOf c).ids)
    (hcap : (s.bookOf c).orders.length + ops.countP Call.mayRest ≤ s.arenaCapacity) :
    s.Returning (Confined lo hi) ops := by
  induction ops generalizing s c with
  | nil => trivial
  | cons op ops ih =>
    have hwithin := hops op List.mem_cons_self
    have hallowed : op.Allowed (s.bookOf c).ids := by
      cases op with
      | add req =>
        refine ⟨hwithin.1, fun htype => hnew req.id ?_⟩
        rw [List.filterMap_cons, Call.newId, if_neg htype]
        exact List.mem_cons_self
      | cancel id => trivial
      | reduce id delta => trivial
    obtain ⟨r, hr, hret⟩ := h.call_within hconf hroom hwithin
    obtain ⟨c', hcalled⟩ := (h.call t hallowed).elim hr
    have hthrown : r.thrown = none := by
      by_contra hne
      obtain ⟨e, he⟩ := Option.ne_none_iff_exists'.mp hne
      obtain ⟨rfl, hrest⟩ := hret.thrown e he
      obtain ⟨req, -, hbook⟩ := hcalled.threw hne
      have hfull := hcalled.exhausted he
      have hle := length_beforeRest_le (s.bookOf c) req
      rw [hbook] at hfull
      rw [List.countP_cons_of_pos hrest] at hcap
      omega
    have hbook : r.book.bookOf c' = ((s.bookOf c).callWith Book.coversWrapping op).2 := by
      rw [← hcalled.returned hthrown]
    have hnodup : (ops.filterMap Call.newId).Nodup ∧ ∀ id ∈ ops.filterMap Call.newId, op.newId ≠ some id := by
      rw [List.filterMap_cons] at hids
      cases hid : op.newId with
      | none =>
        rw [hid] at hids
        exact ⟨hids, fun id _ he => by cases he⟩
      | some id =>
        rw [hid] at hids
        obtain ⟨hnot, hnd⟩ := List.nodup_cons.mp hids
        exact ⟨hnd, fun id' hid' he => hnot (Option.some.inj he ▸ hid')⟩
    refine ⟨hconf, by rwa [h.book_eq], ?_⟩
    rw [hr]
    refine ⟨hthrown, ih hcalled.settled hcalled.tracked hret.confined (by rwa [hret.window])
      (fun op hop => hops op (List.mem_cons_of_mem _ hop)) hnodup.1 (fun id hid hmem => ?_) ?_⟩
    · rw [hbook] at hmem
      rcases ids_callWith _ hmem with hold | he
      · refine hnew id ?_ hold
        rw [List.filterMap_cons]
        split
        · exact hid
        · exact List.mem_cons_of_mem _ hid
      · exact hnodup.2 id hid he
    · have hlen := length_callWith_le Book.coversWrapping (s.bookOf c) op
      rw [hbook, hcalled.capacity]
      rw [List.countP_cons] at hcap
      omega

/-- A new book is near every band. -/
theorem confined_new (lo hi : ℤ) (capacity : UInt32) (window : ℤ) : Confined lo hi (OrderBookV2.new capacity window) :=
  ⟨fun hopen => absurd hopen (by simp [OrderBookV2.new]), fun hopen => absurd hopen (by simp [OrderBookV2.new])⟩

end MatchingEngine
