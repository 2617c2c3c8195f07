import MatchingEngine.Core.LimitOrders

/-!
# All or nothing

Two promises that `add` makes. A fill-or-kill order is filled completely or changes nothing
(`Reached.fillOrKill`): the test and the matching agree even where the sums of the test wrap
around, since a sum in 64 bits is never larger than the true one. And an `add` that throws leaves
the orders alone (`Reached.atomic_iff`): that fails for one kind of call, a limit order that
trades, keeps shares, and then finds no level for its price.

Both are about every state that calls lead to, whatever ids they use.
-/

namespace MatchingEngine

open Foundation OrderBookV2

variable {s : OrderBookV2} {c : Layout} {capacity : UInt32} {window : ℤ} {req : OrderRequest} {r : AddResult}

/-- A run that does not reuse ids is a run. -/
theorem Reachable.reached {ops : List Call} (h : Reachable capacity window ops s) : Reached capacity window s := by
  induction h with
  | new => exact Reached.new
  | @call ops s op r hs hop hr ih =>
    refine ih.call ?_ hr
    cases op with
    | add req => exact hop.1
    | cancel id => trivial
    | reduce id delta => trivial

/-! ### Fill-or-kill -/

/-- Only an order that may come to rest makes `add` throw. -/
theorem thrown_eq_none (hlimit : req.type ≠ .limit) (hpost : req.type ≠ .postOnly) (hr : s.add req = .ok r) :
    r.thrown = none := by
  have hmatch : ∀ {x : Except Ub (OrderBookV2 × OrderRequest × List Trade)},
      (x >>= fun y => .ok ⟨y.1, y.2.2, none⟩) = Except.ok r → r.thrown = none := by
    intro x hx
    obtain ⟨y, -, hy⟩ := bind_eq_ok.mp hx
    cases hy
    rfl
  rw [OrderBookV2.add] at hr
  cases htype : req.type with
  | limit => exact absurd htype hlimit
  | postOnly => exact absurd htype hpost
  | cancel =>
    rw [htype] at hr
    obtain ⟨y, -, hy⟩ := bind_eq_ok.mp hr
    cases hy
    rfl
  | market =>
    rw [htype] at hr
    simp only [reduceCtorEq, if_false, ok_bind, Bool.false_eq_true, false_and] at hr
    exact hmatch hr
  | ioc =>
    rw [htype] at hr
    simp only [reduceCtorEq, if_false, ok_bind, Bool.false_eq_true, false_and] at hr
    exact hmatch hr
  | fok =>
    rw [htype] at hr
    simp only [if_true, reduceCtorEq, if_false, false_and] at hr
    obtain ⟨refused, -, hr⟩ := bind_eq_ok.mp hr
    split_ifs at hr
    · cases hr
      rfl
    · exact hmatch hr

/-- The trades of an order with a limit are within it. -/
theorem price_of_mem_trades {b : Book} (htype : req.type ≠ .market) {t : Trade} (ht : t ∈ b.trades req) :
    (req.side = .buy → t.price ≤ req.price) ∧ (req.side = .sell → req.price ≤ t.price) := by
  obtain ⟨f, hf, rfl⟩ := List.mem_map.mp ht
  obtain ⟨o, -, -, -, hok, -⟩ := order_of_mem_fills hf
  constructor
  · intro hside
    rw [accepts_buy htype hside] at hok
    exact of_decide_eq_true hok
  · intro hside
    rw [accepts_sell htype hside] at hok
    exact of_decide_eq_true hok

/-- **A fill-or-kill order is filled completely, within its limit, or nothing happens.** It never throws, its
own side stays as it was, and the other side holds no order that it did not hold. -/
theorem Reached.fillOrKill (h : Reached capacity window s) (htype : req.type = .fok) (hr : s.add req = .ok r) :
    r.thrown = none ∧
      (tradedQty r.trades = req.qty.toNat ∧
          (∀ t ∈ r.trades, (req.side = .buy → t.price ≤ req.price) ∧ (req.side = .sell → req.price ≤ t.price)) ∨
        r.trades = [] ∧ r.book.book = s.book) ∧
      r.book.book.side req.side = s.book.side req.side ∧
      ∀ side, ∀ o ∈ r.book.book.side side, s.book.HasAt side o := by
  have hthrown := thrown_eq_none (by rw [htype]; decide) (by rw [htype]; decide) hr
  have hmarket : req.type ≠ .market := by rw [htype]; decide
  obtain ⟨c', hadd⟩ := (h.settled.add_fok htype).elim hr
  have hbook : (r.trades, r.book.book) = s.book.addWith Book.coversWrapping req := by
    rw [hadd.settled.book_eq]
    exact hadd.returned (fun hc => absurd (htype.symm.trans hc) (by decide)) hthrown
  rw [Book.addWith, htype] at hbook
  dsimp only at hbook
  by_cases hcov : s.book.coversWrapping req = true
  · rw [if_pos hcov, Prod.mk.injEq] at hbook
    obtain ⟨htrades, hrest⟩ := hbook
    refine ⟨hthrown, Or.inl ⟨?_, fun t ht => ?_⟩, ?_, fun side o ho => ?_⟩
    · have := tradedQty_trades s.book req
      rw [take_left_of_covers hcov] at this
      rw [htrades]
      exact this
    · rw [htrades] at ht
      exact price_of_mem_trades hmarket ht
    · rw [hrest, Book.taken, side_withSide_eq]
      cases req.side <;> rfl
    · rw [hrest] at ho
      exact mem_side_taken ho
  · rw [if_neg hcov, Prod.mk.injEq] at hbook
    obtain ⟨htrades, hrest⟩ := hbook
    refine ⟨hthrown, Or.inr ⟨htrades, hrest⟩, by rw [hrest], fun side o ho => ?_⟩
    rw [hrest] at ho
    exact Book.hasAt_of_mem ho

/-- A level whose total has wrapped around to two shares. -/
theorem fillOrKill_wrapped :
    ∃ s r, Reached 4 8 s ∧ s.add ⟨3, .buy, .fok, 100, 2⟩ = .ok r ∧ r.thrown = none ∧
      (tradedQty r.trades = 2 ∧ (∀ t ∈ r.trades, (Side.buy = .buy → t.price ≤ 100) ∧ (Side.buy = .sell → 100 ≤ t.price)) ∨
        r.trades = [] ∧ r.book.book = s.book) ∧
      r.book.book.side .buy = s.book.side .buy ∧ ∀ side, ∀ o ∈ r.book.book.side side, s.book.HasAt side o := by
  have hrun : ((OrderBookV2.new 4 8).after [.add ⟨1, .sell, .limit, 100, 18446744073709551615⟩,
      .add ⟨2, .sell, .limit, 100, 3⟩]).any (fun s => (s.add ⟨3, .buy, .fok, 100, 2⟩).toOption.isSome) = true := by decide
  obtain ⟨s, hs, hnext⟩ := (Option.any_eq_true _ _).mp hrun
  have h := (Reachable.new.after hs).reached
  cases hadd : s.add ⟨3, .buy, .fok, 100, 2⟩ with
  | error u =>
    rw [hadd] at hnext
    cases hnext
  | ok r => exact ⟨s, r, h, hadd, h.fillOrKill rfl hadd⟩

/-! ### Exceptions -/

/-- The level array can be made to reach a price. -/
def OrderBookV2.Reaches (s : OrderBookV2) (p : ℤ) : Prop :=
  if p < s.base then s.levels.length + (s.base - p + s.initialWindow.tdiv 4 + 1).toNat ≤ kMaxLevels
  else p - s.base < s.levels.length ∨ (p - s.base).toNat + (s.initialWindow.tdiv 4).toNat + 1 ≤ kMaxLevels

instance (s : OrderBookV2) (p : ℤ) : Decidable (s.Reaches p) := inferInstanceAs (Decidable (ite _ _ _))

/-- **`ensure_index_for_price` throws** if and only if the axis cannot reach the price. -/
theorem ensureIndexForPrice_error_iff (ho : s.haveBase = true) {p : ℤ} {x : Except Exn ℤ × OrderBookV2}
    (hx : s.ensureIndexForPrice p = .ok x) : (∃ e, x.1 = .error e) ↔ ¬ s.Reaches p := by
  obtain ⟨idx, s'⟩ := x
  rw [OrderBookV2.Reaches]
  rcases placing_of_ensureIndexForPrice hx with ⟨hf, -⟩ | ⟨s₁, hopening, hplace⟩
  · exact absurd (hf.symm.trans ho) (by decide)
  cases hopening with
  | fresh hf => exact absurd (hf.symm.trans ho) (by decide)
  | opened =>
    cases hplace with
    | found hge hlt =>
      rw [if_neg (by omega)]
      exact iff_of_false (by simp) (by omega)
    | belowMax hneg hmax =>
      rw [frontShift] at hmax
      rw [if_pos (by omega)]
      exact iff_of_true ⟨_, rfl⟩ (by omega)
    | front hneg hmax =>
      rw [frontShift] at hmax
      rw [if_pos (by omega)]
      exact iff_of_false (by simp) (by omega)
    | aboveMax hlen hmax =>
      rw [backSize] at hmax
      rw [if_neg (by omega)]
      exact iff_of_true ⟨_, rfl⟩ (by omega)
    | back hlen hmax =>
      rw [backSize] at hmax
      rw [if_neg (by omega)]
      exact iff_of_false (by simp) (by omega)

/-- An order that finds a cell comes to rest if and only if the axis can reach its price. -/
theorem rest_throws_iff (ho : s.haveBase = true) {thrown : Option Exn} {s' : OrderBookV2}
    (hr : s.rest req = .ok (thrown, s')) (hcell : thrown ≠ some arenaExhausted) :
    thrown ≠ none ↔ ¬ s.Reaches req.price := by
  rw [OrderBookV2.rest] at hr
  obtain ⟨⟨idx, s₁⟩, hidx, hr⟩ := bind_eq_ok.mp hr
  rw [← ensureIndexForPrice_error_iff ho hidx]
  cases idx with
  | error e =>
    cases hr
    exact iff_of_true (by simp) ⟨e, rfl⟩
  | ok idx =>
    refine iff_of_false ?_ (by simp)
    obtain ⟨⟨thrown', s₂⟩, hpush, hr⟩ := bind_eq_ok.mp hr
    cases thrown' with
    | none =>
      cases hr
      simp
    | some e =>
      cases hr
      rw [pushBackOrder] at hpush
      cases halloc : s₁.allocNode with
      | mk cell s₃ =>
        rw [halloc] at hpush
        cases cell with
        | error e' =>
          cases hpush
          exact absurd (congrArg some (allocNode_error (by rw [halloc]))) hcell
        | ok x =>
          obtain ⟨s₄, -, h4⟩ := bind_eq_ok.mp hpush
          cases h4

theorem Frame.reaches {s' : OrderBookV2} (hf : Frame s s') (p : ℤ) : s'.Reaches p ↔ s.Reaches p := by
  rw [OrderBookV2.Reaches, OrderBookV2.Reaches, hf.base, hf.length, hf.window]

/-- **A limit order that trades and keeps shares** throws if and only if the axis cannot reach its price. -/
theorem Settled.crossing_throws_iff (h : Settled s c) (htype : req.type = .limit) (hp : InI64 req.price)
    (hcross : (s.bookOf c).crosses req = true) (hleft : 0 < ((s.bookOf c).take req).left) (hr : s.add req = .ok r) :
    r.thrown ≠ none ↔ ¬ s.Reaches req.price := by
  obtain ⟨s₁, taker, ts, c₁, hrun, hm⟩ := h.match_ req []
  obtain ⟨htaker, hqty⟩ := hm.taker
  have hprice : taker.price = req.price := by rw [htaker]
  -- the axis is open, since an order rests
  have hopen : s₁.haveBase = true := by
    rw [hm.frame.haveBase]
    by_contra hclosed
    have hlt := length_orders_taken_lt hcross hleft
    rw [h.orders_eq_nil hclosed] at hlt
    exact absurd hlt (Nat.not_lt_zero _)
  rw [OrderBookV2.add, htype] at hr
  simp only [reduceCtorEq, if_false, ok_bind, Bool.false_eq_true, true_and] at hr
  rw [hrun, ok_bind] at hr
  dsimp only at hr
  rw [if_pos (toNat_pos.mp (hqty.symm ▸ hleft))] at hr
  obtain ⟨⟨thrown, s₂⟩, hrest, hr⟩ := bind_eq_ok.mp hr
  cases hr
  have hstay : StaysBehind (s₁.bookOf c₁) taker := by
    rw [hm.book, htaker]
    exact staysBehind_taken (s.bookOf c) (by rw [htype]; decide) hleft
  obtain ⟨c₂, hres⟩ := (hm.settled.rest (by rw [hprice]; exact hp) hstay).elim hrest
  -- an order was used up, so there is a free cell
  have hcell : thrown ≠ some arenaExhausted := by
    intro he
    have hfull := hres.exhausted he
    have hlt := length_orders_taken_lt hcross hleft
    rw [hm.book, hm.frame.capacity] at hfull
    have := h.length_orders
    have := h.bump_le
    omega
  have hiff := rest_throws_iff hopen hrest hcell
  rw [hprice, hm.frame.reaches] at hiff
  exact hiff

/-- **When `add` is atomic on failure**: a call that throws leaves the resting orders as they were, unless it
is of a limit order that crosses, that is not covered, and whose price the axis cannot reach. -/
theorem Reached.atomic_iff (h : Reached capacity window s) (hp : InI64 req.price) (hr : s.add req = .ok r) :
    (r.thrown ≠ none → r.book.book = s.book) ↔
      req.type ≠ .limit ∨ s.book.crosses req = false ∨ s.book.covers req = true ∨ s.Reaches req.price := by
  have hs := h.settled
  obtain ⟨c', hadd⟩ := (hs.add hp).elim hr
  have hbefore : r.thrown ≠ none → r.book.book = (s.book.beforeRest req).2 := by
    intro hn
    rw [hadd.settled.book_eq]
    exact congrArg Prod.snd (hadd.threw hn)
  constructor
  · intro hatomic
    by_contra hcond
    simp only [not_or, not_not, Bool.not_eq_false] at hcond
    obtain ⟨htype, hcross, hcov, hreach⟩ := hcond
    have hleft : 0 < (s.book.take req).left :=
      Nat.pos_of_ne_zero fun hz => hcov ((bookOf_sorted s s.levelNodes).left_eq_zero_iff.mp hz)
    have hthrown := (hs.crossing_throws_iff htype hp hcross hleft hr).mpr hreach
    have hsame := (hbefore hthrown).symm.trans (hatomic hthrown)
    rw [Book.beforeRest, if_pos htype] at hsame
    have := length_orders_taken_lt hcross hleft
    rw [show s.book.taken req = s.book from hsame] at this
    exact absurd this (Nat.lt_irrefl _)
  · intro hcond hthrown
    rw [hbefore hthrown, Book.beforeRest]
    split_ifs with htype
    · rcases hcond with hne | hcross | hcov | hreach
      · exact absurd htype hne
      · exact taken_of_not_crosses hcross
      · have hz := (bookOf_sorted s s.levelNodes).left_eq_zero_iff.mpr hcov
        obtain ⟨e, he⟩ := Option.ne_none_iff_exists'.mp hthrown
        exact absurd hz (hs.limit_thrown htype hr he).1.ne'
      · cases hcross : s.book.crosses req with
        | false => exact taken_of_not_crosses hcross
        | true =>
          obtain ⟨e, he⟩ := Option.ne_none_iff_exists'.mp hthrown
          have hleft := (hs.limit_thrown htype hr he).1
          exact absurd hreach ((hs.crossing_throws_iff htype hp hcross hleft hr).mp hthrown)
    · rfl

/-- An order that crosses nothing, at a price that the axis cannot reach. -/
theorem atomic_far :
    ∃ s r, Reached 4 8 s ∧ s.add ⟨2, .sell, .limit, 20000000, 10⟩ = .ok r ∧
      ((r.thrown ≠ none → r.book.book = s.book) ↔
        OrderType.limit ≠ .limit ∨ s.book.crosses ⟨2, .sell, .limit, 20000000, 10⟩ = false ∨
          s.book.covers ⟨2, .sell, .limit, 20000000, 10⟩ = true ∨ s.Reaches 20000000) := by
  have hrun : ((OrderBookV2.new 4 8).after [.add ⟨1, .sell, .limit, 100, 5⟩]).any
      (fun s => (s.add ⟨2, .sell, .limit, 20000000, 10⟩).toOption.isSome) = true := by decide
  obtain ⟨s, hs, hnext⟩ := (Option.any_eq_true _ _).mp hrun
  have h := (Reachable.new.after hs).reached
  cases hadd : s.add ⟨2, .sell, .limit, 20000000, 10⟩ with
  | error u =>
    rw [hadd] at hnext
    cases hnext
  | ok r => exact ⟨s, r, h, hadd, h.atomic_iff (by decide) hadd⟩

/-- **An order is filled and then refused**: it buys the five shares that rest, and throws. -/
theorem not_atomic :
    ∃ s r, Reached 4 8 s ∧ s.add ⟨2, .buy, .limit, 20000000, 10⟩ = .ok r ∧ r.thrown ≠ none ∧ r.book.book ≠ s.book := by
  have hrun : ((OrderBookV2.new 4 8).after [.add ⟨1, .sell, .limit, 100, 5⟩]).any
      (fun s => (s.add ⟨2, .buy, .limit, 20000000, 10⟩).toOption.any fun r =>
        r.thrown.isSome && decide (r.book.book ≠ s.book)) = true := by decide
  obtain ⟨s, hs, hnext⟩ := (Option.any_eq_true _ _).mp hrun
  have h := (Reachable.new.after hs).reached
  cases hadd : s.add ⟨2, .buy, .limit, 20000000, 10⟩ with
  | error u =>
    rw [hadd] at hnext
    cases hnext
  | ok r =>
    rw [hadd] at hnext
    obtain ⟨hthrown, hbook⟩ := Bool.and_eq_true_iff.mp hnext
    exact ⟨s, r, h, hadd, Option.isSome_iff_ne_none.mp hthrown, of_decide_eq_true hbook⟩

end MatchingEngine
