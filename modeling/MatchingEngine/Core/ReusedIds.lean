import MatchingEngine.Core.Placing

/-!
# Orders that the index loses

The index has one entry for an id. An order that comes to rest under an id that rests already
takes the entry over: the older order stays in its queue, where it can trade, but no call can
take it out, and `depth` does not count it.

`FreshRest` says of a call that it does not do this. `no_order_lost`: in a run of such calls
the index and the queues are two views of one set of orders, whether or not calls throw. An
id may be used again as soon as its order has left, which may be in the same call.
-/

namespace MatchingEngine

open Foundation OrderBookV2

/-! ### The condition -/

/-- If a new order finds a place in the book `b`, its id is not that of an order of `b`. -/
def OrderBookV2.FreshIn (s : OrderBookV2) (b : Book) (req : OrderRequest) : Prop :=
  s.HasPlace b req.price → req.id ∉ b.ids

/-- **The call does not let an order rest under an id that rests**: a limit order with what
matching leaves, and a post-only order that does not cross. -/
def FreshRest (s : OrderBookV2) : Call → Prop
  | .add req =>
    (req.type = .limit → 0 < (s.book.take req).left → s.FreshIn (s.book.taken req) req) ∧
      (req.type = .postOnly → s.book.crosses req = false → s.FreshIn s.book req)
  | .cancel _ | .reduce _ _ => True

instance (s : OrderBookV2) (b : Book) (req : OrderRequest) : Decidable (s.FreshIn b req) :=
  inferInstanceAs (Decidable (_ → _))

instance (s : OrderBookV2) : (op : Call) → Decidable (FreshRest s op)
  | .add req => inferInstanceAs (Decidable
      ((req.type = .limit → 0 < (s.book.take req).left → s.FreshIn (s.book.taken req) req) ∧
        (req.type = .postOnly → s.book.crosses req = false → s.FreshIn s.book req)))
  | .cancel _ | .reduce _ _ => inferInstanceAs (Decidable True)

variable {s : OrderBookV2} {c : Layout} {req : OrderRequest}

/-! ### What the index names after a call -/

/-- Matching without resting. -/
theorem Settled.taker_tracked (h : Settled s c) (t : Tracked s c) {r : AddResult}
    (hr : (s.match_ req [] >>= fun x => .ok ⟨x.1, x.2.2, none⟩) = Except.ok r) :
    ∃ c', Settled r.book c' ∧ Tracked r.book c' := by
  obtain ⟨s', taker', ts, c', hrun, hm⟩ := h.match_ req []
  rw [hrun] at hr
  obtain rfl := Except.ok.inj hr
  exact ⟨c', hm.settled, hm.tracked t⟩

/-- What is left of a limit order rests after matching. -/
theorem Settled.limit_tracked (h : Settled s c) (t : Tracked s c) (htype : req.type = .limit) (hp : InI64 req.price)
    (hfresh : 0 < ((s.bookOf c).take req).left → s.FreshIn ((s.bookOf c).taken req) req) {r : AddResult}
    (hr : s.add req = .ok r) : ∃ c', Settled r.book c' ∧ Tracked r.book c' := by
  have hmarket : req.type ≠ .market := by rw [htype]; decide
  obtain ⟨s₁, taker, ts, c₁, hrun, hm⟩ := h.match_ req []
  obtain ⟨htaker, hleft⟩ := hm.taker
  rw [OrderBookV2.add, htype] at hr
  simp only [reduceCtorEq, if_false, ok_bind, Bool.false_eq_true, true_and] at hr
  rw [hrun, ok_bind] at hr
  dsimp only at hr
  by_cases hpos : 0 < taker.qty
  · rw [if_pos hpos] at hr
    have hrest : 0 < ((s.bookOf c).take req).left := hleft ▸ toNat_pos.mpr hpos
    have hstay : StaysBehind (s₁.bookOf c₁) taker := by
      rw [hm.book, htaker]
      exact staysBehind_taken (s.bookOf c) hmarket hrest
    obtain ⟨⟨thrown, s₂⟩, hrested, hr⟩ := bind_eq_ok.mp hr
    obtain rfl := Except.ok.inj hr
    have hin : InI64 taker.price := by rwa [htaker]
    obtain ⟨c₂, hres⟩ := (hm.settled.rest hin hstay).elim hrested
    refine ⟨c₂, hres.settled, hres.tracked (hm.tracked t) fun hnone => ?_⟩
    have hplace := (hm.settled.rest_returns_iff hin hstay hrested).mp hnone
    rw [hm.frame.hasPlace] at hplace
    rw [hm.book, htaker] at hplace ⊢
    exact hfresh hrest hplace
  · rw [if_neg hpos] at hr
    obtain rfl := Except.ok.inj hr
    exact ⟨c₁, hm.settled, hm.tracked t⟩

theorem Settled.postOnly_tracked (h : Settled s c) (t : Tracked s c) (htype : req.type = .postOnly)
    (hp : InI64 req.price) (hfresh : (s.bookOf c).crosses req = false → s.FreshIn (s.bookOf c) req) {r : AddResult}
    (hr : s.add req = .ok r) : ∃ c', Settled r.book c' ∧ Tracked r.book c' := by
  have hmarket : req.type ≠ .market := by rw [htype]; decide
  rw [OrderBookV2.add, htype] at hr
  dsimp only at hr
  rw [h.wouldCross hmarket, ok_bind] at hr
  cases hx : (s.bookOf c).crosses req with
  | true =>
    rw [hx, if_pos rfl] at hr
    obtain rfl := Except.ok.inj hr
    exact ⟨c, h, t⟩
  | false =>
    rw [hx, if_neg (by decide)] at hr
    obtain ⟨⟨thrown, s₁⟩, hrested, hr⟩ := bind_eq_ok.mp hr
    obtain rfl := Except.ok.inj hr
    have hstay := staysBehind_of_not_crosses hmarket hx
    obtain ⟨c₁, hres⟩ := (h.rest hp hstay).elim hrested
    exact ⟨c₁, hres.settled, hres.tracked t fun hnone => hfresh hx ((h.rest_returns_iff hp hstay hrested).mp hnone)⟩

theorem Settled.fok_tracked (h : Settled s c) (t : Tracked s c) (htype : req.type = .fok) {r : AddResult}
    (hr : s.add req = .ok r) : ∃ c', Settled r.book c' ∧ Tracked r.book c' := by
  rw [OrderBookV2.add, htype] at hr
  simp only [if_true, reduceCtorEq, if_false, false_and, bind_assoc] at hr
  obtain ⟨covered, -, hr⟩ := bind_eq_ok.mp hr
  rw [ok_bind] at hr
  cases covered with
  | false =>
    rw [if_pos (by decide)] at hr
    obtain rfl := Except.ok.inj hr
    exact ⟨c, h, t⟩
  | true =>
    rw [if_neg (by decide)] at hr
    exact h.taker_tracked t hr

/-- **`add` keeps every order in the index** if it does not let one rest under an id that rests. -/
theorem Settled.add_tracked (h : Settled s c) (t : Tracked s c) (hp : InI64 req.price)
    (hfresh : FreshRest s (.add req)) {r : AddResult} (hr : s.add req = .ok r) :
    ∃ c', Settled r.book c' ∧ Tracked r.book c' := by
  obtain ⟨hlimit, hpost⟩ := hfresh
  rw [h.book_eq] at hlimit hpost
  cases htype : req.type with
  | limit => exact h.limit_tracked t htype hp (hlimit htype) hr
  | postOnly => exact h.postOnly_tracked t htype hp (hpost htype) hr
  | fok => exact h.fok_tracked t htype hr
  | cancel =>
    rw [OrderBookV2.add, htype] at hr
    obtain ⟨⟨found, s₁⟩, hrun, hr⟩ := bind_eq_ok.mp hr
    obtain rfl := Except.ok.inj hr
    obtain ⟨_, _, c', hrun', hl, -⟩ := h.cancel req.id
    rw [hrun] at hrun'
    obtain ⟨-, rfl⟩ := Prod.mk.inj (Except.ok.inj hrun')
    exact ⟨c', hl.settled, hl.tracked t⟩
  | market =>
    rw [OrderBookV2.add, htype] at hr
    simp only [reduceCtorEq, if_false, ok_bind, Bool.false_eq_true, false_and] at hr
    exact h.taker_tracked t hr
  | ioc =>
    rw [OrderBookV2.add, htype] at hr
    simp only [reduceCtorEq, if_false, ok_bind, Bool.false_eq_true, false_and] at hr
    exact h.taker_tracked t hr

/-- **One call.** -/
theorem Settled.call_tracked (h : Settled s c) (t : Tracked s c) {op : Call} (hop : op.InRange)
    (hfresh : FreshRest s op) {r : CallResult} (hr : s.call op = .ok r) :
    ∃ c', Settled r.book c' ∧ Tracked r.book c' := by
  cases op with
  | add req =>
    obtain ⟨a, hadd, hr⟩ := bind_eq_ok.mp hr
    obtain rfl := Except.ok.inj hr
    exact h.add_tracked t hop hfresh hadd
  | cancel id =>
    have hallowed : (Call.cancel id).Allowed (s.bookOf c).ids := trivial
    obtain ⟨c', hc⟩ := (h.call t hallowed).elim hr
    exact ⟨c', hc.settled, hc.tracked⟩
  | reduce id delta =>
    have hallowed : (Call.reduce id delta).Allowed (s.bookOf c).ids := trivial
    obtain ⟨c', hc⟩ := (h.call t hallowed).elim hr
    exact ⟨c', hc.settled, hc.tracked⟩

/-! ### Runs -/

variable {capacity : UInt32} {window : ℤ}

/-- **In a run of such calls** the index names every order. -/
theorem ReachedBy.tracked (h : ReachedBy FreshRest capacity window s) : ∃ c, Settled s c ∧ Tracked s c := by
  induction h with
  | new => exact ⟨_, settled_new capacity window, tracked_new capacity window⟩
  | call hs hop hmeets hr ih =>
    obtain ⟨c, hset, ht⟩ := ih
    exact hset.call_tracked ht hop hmeets hr

/-- **No order is lost** in a run that lets no order rest under an id that rests: `depth` counts the
orders in the queues, and for each of them a cancel of its id returns true and takes it out, and
no other, so that all can be cancelled one after the other. -/
theorem no_order_lost (capacity : UInt32) (window : ℤ) (s : OrderBookV2) (h : ReachedBy FreshRest capacity window s) :
    s.depth = s.book.orders.length ∧
      ∀ o ∈ s.book.orders, ∃ s', s.cancel o.id = .ok (true, s') ∧ ReachedBy FreshRest capacity window s' ∧
        s'.book.orders = remove o.id s.book.orders ∧ s'.book.orders.length + 1 = s.book.orders.length := by
  obtain ⟨c, hset, ht⟩ := h.tracked
  rw [hset.book_eq]
  refine ⟨ht.depth hset, fun o ho => ?_⟩
  obtain ⟨found, s', c', hrun, hl, -, hfound⟩ := hset.cancel o.id
  have hmem : o.id ∈ (s.bookOf c).ids := List.mem_map_of_mem ho
  have htrue : found = true := (hfound ht).trans (decide_eq_true hmem)
  rw [htrue] at hrun
  have horders : s'.book.orders = remove o.id (s.bookOf c).orders := by
    rw [hl.settled.book_eq, hl.book ht, Book.cancel, Book.orders, Book.orders, remove_append]
  refine ⟨s', hrun, ?_, horders, ?_⟩
  · have hcall : s.call (.cancel o.id) = .ok ⟨s', .found true, none⟩ := by
      rw [OrderBookV2.call, hrun]
      rfl
    have hin : (Call.cancel o.id).InRange := trivial
    have hmeets : FreshRest s (.cancel o.id) := trivial
    exact h.call hin hmeets hcall
  · rw [horders]
    exact length_remove (ht.ids_nodup hset) ho

/-- A run that uses an id again in the call that fills its order, and loses nothing. -/
theorem no_order_lost_same_call :
    ∃ s, ReachedBy FreshRest 4 8 s ∧ s.book.orders = [⟨1, 100, 3⟩] ∧ s.depth = 1 := by
  have hrun : ((OrderBookV2.new 4 8).call (.add ⟨1, .buy, .limit, 100, 5⟩)).toOption.any (fun r =>
      decide (FreshRest r.book (.add ⟨1, .sell, .limit, 100, 8⟩)) &&
        (r.book.call (.add ⟨1, .sell, .limit, 100, 8⟩)).toOption.any fun q =>
          decide (q.book.book.orders = [⟨1, 100, 3⟩])) = true := by decide
  have hfresh : FreshRest (OrderBookV2.new 4 8) (.add ⟨1, .buy, .limit, 100, 5⟩) := by decide
  obtain ⟨r, hr, hnext⟩ := exists_of_toOption_any hrun
  obtain ⟨hfresh', hnext⟩ := Bool.and_eq_true_iff.mp hnext
  obtain ⟨q, hq, horders⟩ := exists_of_toOption_any hnext
  have hfirst : ReachedBy FreshRest 4 8 r.book := ReachedBy.new.call (by decide) hfresh hr
  have hfresh' := of_decide_eq_true hfresh'
  have hs : ReachedBy FreshRest 4 8 q.book := hfirst.call (by decide) hfresh' hq
  have horders := of_decide_eq_true horders
  refine ⟨q.book, hs, horders, ?_⟩
  rw [(no_order_lost 4 8 q.book hs).1, horders]
  rfl

/-- **An id used twice loses an order**: a second order comes to rest under the id 1, and `depth` counts
one of the two; a cancel of the id takes the second one out, and the first one cannot be cancelled
and trades. -/
theorem reused_id_loses :
    ∃ s, Reached 4 8 s ∧ s.book.orders = [⟨1, 100, 5⟩, ⟨1, 99, 7⟩] ∧ s.depth = 1 ∧
      ∃ s', s.cancel 1 = .ok (true, s') ∧ s'.book.orders = [⟨1, 100, 5⟩] ∧ s'.cancel 1 = .ok (false, s') ∧
        ∃ r, s'.add ⟨2, .sell, .market, 0, 5⟩ = .ok r ∧ r.trades = [⟨1, 2, 100, 5⟩] := by
  have hrun : ((OrderBookV2.new 4 8).call (.add ⟨1, .buy, .limit, 100, 5⟩)).toOption.any (fun r =>
      (r.book.call (.add ⟨1, .buy, .limit, 99, 7⟩)).toOption.any fun q =>
        decide (q.book.book.orders = [⟨1, 100, 5⟩, ⟨1, 99, 7⟩] ∧ q.book.depth = 1) &&
          (q.book.cancel 1).toOption.any fun t =>
            decide (t.1 = true ∧ t.2.book.orders = [⟨1, 100, 5⟩] ∧ t.2.index.find 1 = none) &&
              (t.2.add ⟨2, .sell, .market, 0, 5⟩).toOption.any fun a => decide (a.trades = [⟨1, 2, 100, 5⟩])) = true := by
    decide
  obtain ⟨r, hr, hnext⟩ := exists_of_toOption_any hrun
  obtain ⟨q, hq, hnext⟩ := exists_of_toOption_any hnext
  obtain ⟨hstate, hnext⟩ := Bool.and_eq_true_iff.mp hnext
  obtain ⟨horders, hdepth⟩ := of_decide_eq_true hstate
  obtain ⟨⟨found, t⟩, ht, hnext⟩ := exists_of_toOption_any hnext
  obtain ⟨hstate, hnext⟩ := Bool.and_eq_true_iff.mp hnext
  obtain ⟨hfound, hrest, hfind⟩ := of_decide_eq_true hstate
  obtain ⟨a, ha, htrades⟩ := exists_of_toOption_any hnext
  obtain rfl : found = true := hfound
  have hlost : t.cancel 1 = .ok (false, t) := by
    rw [OrderBookV2.cancel, hfind]
  exact ⟨q.book, .call (.call .new (by decide) hr) (by decide) hq, horders, hdepth, t, ht, hrest, hlost, a, ha,
    of_decide_eq_true htrades⟩

end MatchingEngine
