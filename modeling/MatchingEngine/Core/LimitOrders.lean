import MatchingEngine.Core.Conservation
import MatchingEngine.Core.Correctness

/-!
# Books that only see limit orders

The feed submits limit orders only, at prices of 32 bits. On a book that has seen nothing
else (`Sound`) no call overflows, and every resting order is ordinary. An `add` that throws
throws a `std::runtime_error`, unless the window is no size of a vector; and then no order
ever rests (`Sound.orders_eq_nil`). The three calls, in terms of the resting orders alone, are
`Sound.add`, `Sound.cancel` and `Sound.reduce`.
-/

namespace MatchingEngine

open Foundation OrderBookV2

variable {s : OrderBookV2} {c : Layout} {req : OrderRequest}

/-! ### What exceptions mean -/

theorem allocNode_error {e : Exn} (h : s.allocNode.1 = .error e) : e = arenaExhausted := by
  rw [allocNode] at h
  cases hf : s.freeList with
  | cons x rest => simp [hf] at h
  | nil =>
    simp only [hf] at h
    split_ifs at h
    exact (Except.error.inj h).symm

/-- **What keeps an order from resting**: a `std::runtime_error`, or, where the window is no size of a vector, a
`std::length_error`. -/
inductive RestThrows (window : ℤ) : Exn → Prop
  /-- The arena is full, or the level array cannot reach the price. -/
  | runtimeError (what : String) : WindowFits window → RestThrows window (.runtimeError what)
  /-- There can be no level array. -/
  | lengthError : ¬ WindowFits window → RestThrows window .lengthError

theorem Opening.windowFits {p : ℤ} {s' : OrderBookV2} (h : Opening p s s')
    (hopen : s.haveBase = true → WindowFits s.initialWindow) : WindowFits s.initialWindow := by
  cases h with
  | opened ho => exact hopen ho
  | fresh _ hw => exact hw

/-- The exceptions of the axis. Where it returns a level, there is a level array. -/
theorem ensureIndexForPrice_thrown (hopen : s.haveBase = true → WindowFits s.initialWindow) (p : ℤ) :
    Ends (fun _ => True) (s.ensureIndexForPrice p) fun r =>
      (∀ e, r.1 = .error e → RestThrows s.initialWindow e) ∧ ∀ idx, r.1 = .ok idx → WindowFits s.initialWindow := by
  cases hr : s.ensureIndexForPrice p with
  | error u => trivial
  | ok r =>
    obtain ⟨idx, s'⟩ := r
    rcases placing_of_ensureIndexForPrice hr with ⟨-, hw, rfl, -⟩ | ⟨s₁, hopening, hplace⟩
    · refine ⟨fun e he => ?_, fun idx hidx => absurd hidx (by simp)⟩
      rw [← Except.error.inj he]
      exact .lengthError hw
    · have hw := hopening.windowFits hopen
      refine ⟨fun e he => ?_, fun _ _ => hw⟩
      obtain rfl : idx = .error e := he
      cases hplace with
      | belowMax => exact .runtimeError _ hw
      | aboveMax => exact .runtimeError _ hw

theorem rest_thrown (hopen : s.haveBase = true → WindowFits s.initialWindow) (req : OrderRequest) :
    Ends (fun _ => True) (s.rest req) fun r => ∀ e, r.1 = some e → RestThrows s.initialWindow e := by
  rw [OrderBookV2.rest]
  refine Ends.bind (ensureIndexForPrice_thrown hopen req.price) ?_
  rintro ⟨idx, s₁⟩ ⟨herror, hok⟩
  cases idx with
  | error e =>
    intro e' he
    cases he
    exact herror e rfl
  | ok idx =>
    have hpush : Ends (fun _ => True) (s₁.pushBackOrder idx req.side req) fun r =>
        ∀ e, r.1 = some e → e = arenaExhausted := by
      rw [pushBackOrder]
      cases halloc : s₁.allocNode with
      | mk cell s₂ =>
        cases cell with
        | ok x => cases hlink : s₂.linkBack x idx req.side req <;> simp [hlink]
        | error e =>
          intro e' he
          cases he
          exact allocNode_error (by rw [halloc])
    refine Ends.bind hpush ?_
    rintro ⟨thrown, s₂⟩ hthrown
    cases thrown with
    | none => simp
    | some e =>
      intro e' he
      cases he
      obtain rfl := hthrown e rfl
      exact .runtimeError _ (hok idx rfl)

/-- **When an `add` of a limit order throws**, it is left with shares. -/
theorem Settled.limit_thrown (h : Settled s c) (htype : req.type = .limit) {r : AddResult} (hr : s.add req = .ok r)
    {e : Exn} (he : r.thrown = some e) : 0 < ((s.bookOf c).take req).left ∧ RestThrows s.initialWindow e := by
  obtain ⟨s₁, taker, ts, c₁, hrun, hm⟩ := h.match_ req []
  obtain ⟨-, hleft⟩ := hm.taker
  rw [OrderBookV2.add, htype] at hr
  simp only [reduceCtorEq, if_false, ok_bind, Bool.false_eq_true, true_and] at hr
  rw [hrun, ok_bind] at hr
  dsimp only at hr
  by_cases hpos : 0 < taker.qty
  · rw [if_pos hpos] at hr
    refine ⟨by rw [← hleft]; exact toNat_pos.mpr hpos, ?_⟩
    have hrest := rest_thrown hm.settled.opened taker
    cases hq : s₁.rest taker with
    | error u =>
      rw [hq] at hr
      cases hr
    | ok q =>
      rw [hq, ok_bind] at hr
      obtain ⟨thrown, s₂⟩ := q
      cases hr
      rw [← hm.frame.window]
      exact hrest.elim hq e he
  · rw [if_neg hpos] at hr
    cases hr
    cases he

/-- Without a price axis no order rests. -/
theorem Settled.orders_eq_nil (h : Settled s c) (hclosed : s.haveBase ≠ true) : (s.bookOf c).orders = [] := by
  refine List.eq_nil_iff_forall_not_mem.mpr fun o ho => ?_
  obtain ⟨i, hi⟩ := h.mem_orders.mp ho
  have := h.eq_nil (h.unopened (Bool.not_eq_true _ ▸ hclosed)) i
  rw [OrderBookV2.queue, this] at hi
  cases hi

/-! ### Ordinary orders -/

/-- An order with shares, at a price of 32 bits. -/
def Ordinary (o : Order ℤ OrderId) : Prop := 0 < o.qty ∧ 0 ≤ o.price ∧ o.price < 2 ^ 32

/-- What is left on a side is ordinary, if all of it was. -/
theorem ordinary_fill_rest {ok : ℤ → Bool} {q : ℕ} {os : List (Order ℤ OrderId)} (h : ∀ o ∈ os, Ordinary o) :
    ∀ o ∈ (fill ok q os).rest, Ordinary o := by
  intro o ho
  rcases fill_rest ok q os with hs | ⟨o', tail, q', hs, -, hq', hr⟩
  · exact h o (hs.subset ho)
  · rw [hr] at ho
    obtain rfl | ho := List.mem_cons.mp ho
    · exact ⟨hq', (h o' (hs.subset (by simp))).2⟩
    · exact h o (hs.subset (by simp [ho]))

/-- All resting orders are ordinary. -/
def Book.Ordinary (b : Book) : Prop := ∀ side, ∀ o ∈ b.side side, MatchingEngine.Ordinary o

variable {b : Book}

theorem Book.Ordinary.taken (h : b.Ordinary) (req : OrderRequest) : (b.taken req).Ordinary := by
  intro side o ho
  rw [Book.taken, side_withSide_eq] at ho
  split_ifs at ho
  · exact ordinary_fill_rest (h _) o ho
  · exact h side o ho

theorem Book.Ordinary.join (h : b.Ordinary) {req : OrderRequest} (hp : 0 ≤ req.price ∧ req.price < 2 ^ 32) {qty : ℕ}
    (hq : 0 < qty) : (b.join req qty).Ordinary := by
  intro side o ho
  obtain ho | ⟨-, rfl⟩ := mem_side_join.mp ho
  · exact h side o ho
  · exact ⟨hq, hp⟩

theorem Book.Ordinary.cancel (h : b.Ordinary) (id : OrderId) : (b.cancel id).2.Ordinary :=
  fun side o ho => h side o (mem_side_cancel.mp ho).1

theorem Book.Ordinary.reduce (h : b.Ordinary) (id : OrderId) (delta : Quantity) : (b.reduce id delta).2.Ordinary := by
  have hone : ∀ os : List (Order ℤ OrderId), (∀ o ∈ os, MatchingEngine.Ordinary o) →
      ∀ o ∈ reduceBy id delta.toNat os, MatchingEngine.Ordinary o := by
    intro os hos o ho
    obtain ⟨o', ho', he⟩ := List.mem_filterMap.mp ho
    split_ifs at he with hid hle
    · rw [← Option.some.inj he]
      exact ⟨by show 0 < o'.qty - delta.toNat; omega, (hos o' ho').2⟩
    · rw [← Option.some.inj he]
      exact hos o' ho'
  intro side
  cases side with
  | buy => exact hone b.bids (h .buy)
  | sell => exact hone b.asks (h .sell)

/-! ### Sound books -/

/-- **The state of a book** of the feed, between two calls. -/
structure Sound (s : OrderBookV2) : Prop where
  /-- The representation. -/
  settled : Settled s s.levelNodes
  /-- The index names every order. -/
  tracked : Tracked s s.levelNodes
  /-- The price axis is moderate. -/
  base : BaseOk s
  /-- Every order has shares, at a price of 32 bits. -/
  ordinary : s.book.Ordinary

/-- What a call of another layout shows, in the canonical one. -/
theorem Sound.of_settled (h : Settled s c) (t : Tracked s c) (hb : BaseOk s) (hp : (s.bookOf c).Ordinary) : Sound s where
  settled := by rw [h.layout]; exact h
  tracked := by rw [h.layout]; exact t
  base := hb
  ordinary := by rw [h.book_eq]; exact hp

theorem Sound.new (capacity : UInt32) {window : ℤ} (hw : InI64 window) : Sound (OrderBookV2.new capacity window) := by
  refine Sound.of_settled (settled_new capacity window) (tracked_new capacity window) ⟨hw, ?_⟩ ?_
  · exact fun hf => absurd hf (by simp [OrderBookV2.new])
  · intro side o ho
    cases side <;> cases ho

/-- A book whose window is no size of a vector never holds an order. -/
theorem Sound.orders_eq_nil (h : Sound s) (hw : ¬ WindowFits s.initialWindow) : s.book.orders = [] :=
  h.settled.orders_eq_nil fun hopen => hw (h.settled.opened hopen)

/-- There an order finds nothing. -/
theorem Sound.unopened (h : Sound s) (hw : ¬ WindowFits s.initialWindow) (req : OrderRequest) :
    (s.book.take req).left = req.qty.toNat ∧ s.book.trades req = [] ∧ s.book.taken req = s.book := by
  obtain ⟨hbids, hasks⟩ := List.append_eq_nil_iff.mp (h.orders_eq_nil hw)
  have hside : ∀ side, s.book.side side = [] := fun side => by cases side <;> assumption
  have htake : s.book.take req = ⟨[], req.qty.toNat, []⟩ := by rw [Book.take, hside, fill_nil]
  have hcross : s.book.crosses req = false := by
    rw [Book.crosses, Book.best, hside]
    rfl
  exact ⟨by rw [htake], by rw [Book.trades, htake]; rfl, taken_of_not_crosses hcross⟩

theorem Sound.ids_nodup (h : Sound s) : s.book.ids.Nodup := h.tracked.ids_nodup h.settled

theorem Sound.cancel (h : Sound s) (id : OrderId) :
    ∃ found s', s.cancel id = .ok (found, s') ∧ Sound s' ∧ s'.book = (s.book.cancel id).2 := by
  obtain ⟨found, s', c', hrun, hl, -, -⟩ := h.settled.cancel id
  have hbook : s'.bookOf c' = (s.book.cancel id).2 := hl.book h.tracked
  refine ⟨found, s', hrun, Sound.of_settled hl.settled (hl.tracked h.tracked) (h.base.frame hl.frame) ?_, ?_⟩
  · rw [hbook]
    exact h.ordinary.cancel id
  · rw [hl.settled.book_eq, hbook]

theorem Sound.reduce (h : Sound s) (id : OrderId) (delta : Quantity) :
    ∃ found s', s.reduce id delta = .ok (found, s') ∧ Sound s' ∧ s'.book = (s.book.reduce id delta).2 := by
  obtain ⟨found, s', c', hrun, hl, -⟩ := h.settled.reduce id delta
  have hbook : s'.bookOf c' = (s.book.reduce id delta).2 := hl.book h.tracked
  refine ⟨found, s', hrun, Sound.of_settled hl.settled (hl.tracked h.tracked) (h.base.frame hl.frame) ?_, ?_⟩
  · rw [hbook]
    exact h.ordinary.reduce id delta
  · rw [hl.settled.book_eq, hbook]

/-- Neither of them touches the window. -/
theorem Sound.cancel_window (h : Sound s) {id : OrderId} {found : Bool} (hrun : s.cancel id = .ok (found, s')) :
    s'.initialWindow = s.initialWindow := by
  obtain ⟨found', s₁, c', hrun', hl, -⟩ := h.settled.cancel id
  obtain ⟨-, rfl⟩ := Prod.mk.inj (Except.ok.inj (hrun.symm.trans hrun'))
  exact hl.frame.window

theorem Sound.reduce_window (h : Sound s) {id : OrderId} {delta : Quantity} {found : Bool}
    (hrun : s.reduce id delta = .ok (found, s')) : s'.initialWindow = s.initialWindow := by
  obtain ⟨found', s₁, c', hrun', hl, -⟩ := h.settled.reduce id delta
  obtain ⟨-, rfl⟩ := Prod.mk.inj (Except.ok.inj (hrun.symm.trans hrun'))
  exact hl.frame.window

/-- The book after a limit order has been added. -/
def Book.afterLimit (b : Book) (req : OrderRequest) : Book :=
  if 0 < (b.take req).left then (b.taken req).join req (b.take req).left else b.taken req

/-- An order that rests after a limit order rested before it, or is the limit order. -/
theorem mem_side_afterLimit {side : Side} {o : Order ℤ OrderId} (ho : o ∈ (b.afterLimit req).side side) :
    b.HasAt side o ∨ (side = req.side ∧ o.id = req.id) := by
  rw [Book.afterLimit] at ho
  split_ifs at ho
  · obtain ho | ⟨hs, rfl⟩ := mem_side_join.mp ho
    · exact Or.inl (mem_side_taken ho)
    · exact Or.inr ⟨hs, rfl⟩
  · exact Or.inl (mem_side_taken ho)

/-- How an `add` of a limit order ends. -/
structure LimitAdded (s : OrderBookV2) (req : OrderRequest) (r : AddResult) : Prop where
  /-- The book is sound again. -/
  sound : Sound r.book
  /-- The window stays what it is. -/
  window : r.book.initialWindow = s.initialWindow
  /-- The trades are the fills. -/
  trades : r.trades = s.book.trades req
  /-- What is left rests, -/
  returned : r.thrown = none → r.book.book = s.book.afterLimit req
  /-- or an exception keeps it from resting. -/
  threw : ∀ e, r.thrown = some e →
    RestThrows s.initialWindow e ∧ 0 < (s.book.take req).left ∧ r.book.book = s.book.taken req

/-- **`add`** of a limit order at a price of 32 bits, under a new id. -/
theorem Sound.add (h : Sound s) (htype : req.type = .limit) (hp : 0 ≤ req.price ∧ req.price < 2 ^ 32)
    (hid : req.id ∉ s.book.ids) : ∃ r, s.add req = .ok r ∧ LimitAdded s req r := by
  have hin : InI64 req.price := ⟨by omega, by omega⟩
  have hfail : ∀ u : Ub, ¬ (u = .overflow ∧ (req.type = .fok ∨ ¬ Moderate s req.price)) := by
    rintro u ⟨-, hf | hm⟩
    · rw [htype] at hf
      cases hf
    · exact hm ⟨h.base, hp⟩
  obtain ⟨r, hrun, c', hr⟩ := (h.settled.add hin).exists_ok hfail
  have hbook := hr.settled.book_eq
  have hlimit : s.book.addWith Book.coversWrapping req = (s.book.trades req, s.book.afterLimit req) := by
    rw [Book.addWith, htype, Book.afterLimit]
  have hbefore : s.book.beforeRest req = (s.book.trades req, s.book.taken req) := by
    rw [Book.beforeRest, if_pos htype]
  have hret : r.thrown = none → r.trades = s.book.trades req ∧ r.book.bookOf c' = s.book.afterLimit req := by
    intro hn
    have := hr.returned (fun _ => h.tracked) hn
    rw [show s.bookOf s.levelNodes = s.book from rfl, hlimit, Prod.mk.injEq] at this
    exact this
  have hthr : r.thrown ≠ none → r.trades = s.book.trades req ∧ r.book.bookOf c' = s.book.taken req := by
    intro hn
    have := hr.threw hn
    rw [show s.bookOf s.levelNodes = s.book from rfl, hbefore, Prod.mk.injEq] at this
    exact this
  have hpos : (r.book.bookOf c').Ordinary := by
    by_cases hn : r.thrown = none
    · rw [(hret hn).2, Book.afterLimit]
      split_ifs with hleft
      · exact (h.ordinary.taken req).join hp hleft
      · exact h.ordinary.taken req
    · rw [(hthr hn).2]
      exact h.ordinary.taken req
  refine ⟨r, hrun, Sound.of_settled hr.settled (hr.tracked h.tracked fun _ => hid) (hr.base h.base fun _ => hp)
    hpos, hr.params.2, ?_, fun hn => ?_, fun e he => ?_⟩
  · by_cases hn : r.thrown = none
    · exact (hret hn).1
    · exact (hthr hn).1
  · rw [hbook, (hret hn).2]
  · obtain ⟨hleft, hkind⟩ := h.settled.limit_thrown htype hrun he
    refine ⟨hkind, hleft, ?_⟩
    rw [hbook, (hthr (by rw [he]; simp)).2]

/-- Where shares of an order have come to rest, there is a level array. -/
theorem LimitAdded.windowFits {r : AddResult} (h : LimitAdded s req r) (hthrown : r.thrown = none)
    (hleft : 0 < (s.book.take req).left) : WindowFits s.initialWindow := by
  by_contra hw
  have hnil := h.sound.orders_eq_nil (h.window ▸ hw)
  have hlen := length_join (s.book.taken req) req (s.book.take req).left
  rw [h.returned hthrown, Book.afterLimit, if_pos hleft] at hnil
  rw [hnil] at hlen
  cases hlen

/-- A `std::length_error` is thrown for want of a window. -/
theorem LimitAdded.not_windowFits {r : AddResult} (h : LimitAdded s req r) (hthrown : r.thrown = some .lengthError) :
    ¬ WindowFits s.initialWindow := by
  obtain ⟨hkind, -⟩ := h.threw _ hthrown
  cases hkind with
  | lengthError hw => exact hw

/-- It leaves the orders alone, of which there are none. -/
theorem LimitAdded.of_lengthError {r : AddResult} (h : LimitAdded s req r) (hs : Sound s)
    (hthrown : r.thrown = some .lengthError) : s.book.orders = [] ∧ r.trades = [] ∧ r.book.book = s.book := by
  have hw := h.not_windowFits hthrown
  obtain ⟨-, htrades, htaken⟩ := hs.unopened hw req
  exact ⟨hs.orders_eq_nil hw, h.trades.trans htrades, (h.threw _ hthrown).2.2.trans htaken⟩

/-- **No shares are lost**: what a new limit order trades and what then rests under its id is what it
came with. -/
theorem LimitAdded.account {r : AddResult} (h : LimitAdded s req r) (hid : req.id ∉ s.book.ids)
    (hthrown : r.thrown = none) : tradedQty r.trades + restingOf req.id r.book.book.orders = req.qty.toNat := by
  have hsum := tradedQty_trades s.book req
  have htaken : restingOf req.id (s.book.taken req).orders = 0 :=
    restingOf_eq_zero fun hm => hid (ids_taken_subset _ _ hm)
  rw [h.trades, h.returned hthrown, Book.afterLimit]
  split_ifs with hleft
  · rw [restingOf_join, if_pos rfl]
    omega
  · omega

end MatchingEngine
