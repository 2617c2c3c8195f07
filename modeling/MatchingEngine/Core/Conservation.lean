import MatchingEngine.Core.Runs
import Mathlib.Algebra.Order.BigOperators.Group.List

/-!
# No share is lost or made

An account of every id over a whole run: what was submitted under it is what it traded as
taker, what it traded as maker, what `cancel` and `reduce` removed, what was discarded on
arrival, and what still rests (`shares_conserved`). The quantities are natural numbers, so
no sum wraps. Each trade is counted once for its taker and once for its maker.

The account is read from the calls and their answers; only what rests, and so what a
`cancel` removes, is read from the book.
-/

namespace MatchingEngine

open Foundation OrderBookV2

/-! ### The account -/

/-- One step of a run. -/
structure Step where
  /-- The book before it. -/
  before : OrderBookV2
  /-- The call. -/
  op : Call
  /-- How it ends. -/
  result : CallResult

/-- The steps of a run, up to one that overflows. -/
def OrderBookV2.steps (s : OrderBookV2) : List Call → List Step
  | [] => []
  | op :: ops =>
    match s.call op with
    | .ok r => ⟨s, op, r⟩ :: r.book.steps ops
    | .error _ => []

/-- The quantity that rests under an id. -/
def OrderBookV2.resting (s : OrderBookV2) (id : OrderId) : ℕ := restingOf id s.book.orders

/-- The quantity of some trades. -/
def tradedQty (ts : List Trade) : ℕ := (ts.map (·.qty.toNat)).sum

/-- The trades of an answer. -/
def Answer.tradeList : Answer → List Trade
  | .trades ts => ts
  | .found _ => []

namespace Step

/-- What a step submits under an id. -/
def submitted (st : Step) (id : OrderId) : ℕ :=
  match st.op with
  | .add req => if req.type ≠ .cancel ∧ req.id = id then req.qty.toNat else 0
  | .cancel _ | .reduce _ _ => 0

/-- What an id trades as the taker. -/
def asTaker (st : Step) (id : OrderId) : ℕ := tradedQty (st.result.answer.tradeList.filter (·.takerId = id))

/-- What an id trades as the maker. -/
def asMaker (st : Step) (id : OrderId) : ℕ := tradedQty (st.result.answer.tradeList.filter (·.makerId = id))

/-- What a `cancel`, an `add` of type Cancel or a `reduce` removes from an id. -/
def removed (st : Step) (id : OrderId) : ℕ :=
  match st.op with
  | .add req => if req.type = .cancel ∧ req.id = id then st.before.resting id else 0
  | .cancel id' => if id' = id then st.before.resting id else 0
  | .reduce id' delta => if id' = id then min delta.toNat (st.before.resting id) else 0

/-- What is discarded on arrival: the remainder of Market and IOC, all of a FOK that does not trade, and all
of a PostOnly that does not rest. -/
def discarded (st : Step) (id : OrderId) : ℕ :=
  match st.op with
  | .add req =>
    if req.id = id then
      match req.type with
      | .limit | .cancel => 0
      | .market | .ioc => req.qty.toNat - tradedQty st.result.answer.tradeList
      | .fok => if st.result.answer.tradeList = [] then req.qty.toNat else 0
      | .postOnly => if id ∈ st.result.book.book.ids then 0 else req.qty.toNat
    else 0
  | .cancel _ | .reduce _ _ => 0

end Step

/-- An amount of the account, over some steps. -/
def overSteps (amount : Step → OrderId → ℕ) (steps : List Step) (id : OrderId) : ℕ :=
  (steps.map fun st => amount st id).sum

/-! ### One call on the reference book -/

section Reference

variable {b : Book} {req : OrderRequest} {id : OrderId}

theorem restingOf_withSide (b : Book) (side : Side) (os : List (Order ℤ OrderId)) (id : OrderId) :
    restingOf id (b.withSide side os).orders + restingOf id (b.side side) = restingOf id b.orders + restingOf id os := by
  rw [Book.orders, Book.orders, restingOf_append, restingOf_append]
  cases side with
  | buy =>
    show restingOf id os + restingOf id b.asks + restingOf id b.bids = _
    omega
  | sell =>
    show restingOf id b.bids + restingOf id os + restingOf id b.asks = _
    omega

/-- An order that comes to rest adds its quantity to its id. -/
theorem restingOf_join (b : Book) (req : OrderRequest) (qty : ℕ) (id : OrderId) :
    restingOf id (b.join req qty).orders = (if req.id = id then qty else 0) + restingOf id b.orders := by
  have h := restingOf_withSide b req.side (enqueue req.side.ahead (req.resting qty) (b.side req.side)) id
  rw [restingOf_enqueue] at h
  have hq : (if (req.resting qty).id = id then (req.resting qty).qty else 0) = if req.id = id then qty else 0 := rfl
  rw [hq] at h
  rw [Book.join]
  omega

/-- What the fills of an incoming order take, and what they leave, id by id. -/
theorem restingOf_taken (b : Book) (req : OrderRequest) (id : OrderId) :
    restingOf id (b.taken req).orders + filledOf id (b.take req).fills = restingOf id b.orders := by
  have h := restingOf_withSide b req.side.opposite (b.take req).rest id
  have hfill := fill_account req.accepts req.qty.toNat (b.side req.side.opposite) id
  rw [← Book.take] at hfill
  rw [Book.taken]
  omega

/-- A fill is no larger than the incoming quantity, so its trade reports it exactly. -/
theorem toNat_fill_qty {f : Fill ℤ OrderId} (hf : f ∈ (b.take req).fills) : (UInt64.ofNat f.qty).toNat = f.qty := by
  have hsum := fill_left_add req.accepts req.qty.toNat (b.side req.side.opposite)
  rw [← Book.take] at hsum
  have hle : f.qty ≤ ((b.take req).fills.map (·.qty)).sum := List.single_le_sum (fun _ _ => Nat.zero_le _) _ (List.mem_map_of_mem hf)
  have := req.qty.toNat_lt
  rw [UInt64.toNat_ofNat', Nat.mod_eq_of_lt (by omega)]

theorem tradedQty_map {fs : List (Fill ℤ OrderId)} (h : ∀ f ∈ fs, (UInt64.ofNat f.qty).toNat = f.qty)
    (takerId : OrderId) : tradedQty (fs.map (toTrade takerId)) = (fs.map (·.qty)).sum := by
  rw [tradedQty, List.map_map]
  congr 1
  exact List.map_congr_left h

/-- The trades of an incoming order add up to what it lost. -/
theorem tradedQty_trades (b : Book) (req : OrderRequest) :
    tradedQty (b.trades req) + (b.take req).left = req.qty.toNat := by
  rw [Book.trades, tradedQty_map (fun f hf => toNat_fill_qty hf), Nat.add_comm]
  exact fill_left_add req.accepts req.qty.toNat (b.side req.side.opposite)

/-- The taker of all of them is the incoming order. -/
theorem tradedQty_taker (b : Book) (req : OrderRequest) (id : OrderId) :
    tradedQty ((b.trades req).filter (·.takerId = id)) = if req.id = id then tradedQty (b.trades req) else 0 := by
  have htaker : ∀ t ∈ b.trades req, t.takerId = req.id := by
    intro t ht
    obtain ⟨f, -, rfl⟩ := List.mem_map.mp ht
    rfl
  split_ifs with hid
  · rw [List.filter_eq_self.mpr fun t ht => decide_eq_true ((htaker t ht).trans hid)]
  · rw [List.filter_eq_nil_iff.mpr fun t ht => ?_]
    · rfl
    · rw [htaker t ht]
      simpa using hid

/-- As makers, the ids lose what the fills take from them. -/
theorem tradedQty_maker (b : Book) (req : OrderRequest) (id : OrderId) :
    tradedQty ((b.trades req).filter (·.makerId = id)) = filledOf id (b.take req).fills := by
  rw [Book.trades, List.filter_map, tradedQty_map fun f hf => toNat_fill_qty (List.mem_of_mem_filter hf)]
  rfl

/-- **A fill-or-kill order that is accepted is filled.** -/
theorem take_left_of_covers (h : b.coversWrapping req = true) : (b.take req).left = 0 := by
  have hle := le_of_coversWrapped h
  rw [Nat.zero_add] at hle
  exact fill_left_eq_zero hle

end Reference

/-! ### One step -/

/-- What goes into an id during a step comes out of it, or rests. -/
def Step.Balanced (st : Step) : Prop :=
  ∀ id, st.submitted id + st.before.resting id =
    st.asTaker id + st.asMaker id + st.removed id + st.discarded id + st.result.book.resting id

/-- The step shows what the reference book does. -/
def Step.Follows (st : Step) : Prop :=
  (st.result.answer, st.result.book.book) = st.before.book.callWith Book.coversWrapping st.op

section Balance

variable {st : Step} {req : OrderRequest}

/-- The account of an incoming order that trades, and joins with `qty` or not at all. -/
theorem traded_balance (b : Book) (req : OrderRequest) (id : OrderId) :
    (if req.id = id then req.qty.toNat else 0) + restingOf id b.orders =
      tradedQty ((b.trades req).filter (·.takerId = id)) + tradedQty ((b.trades req).filter (·.makerId = id)) +
        (if req.id = id then (b.take req).left else 0) + restingOf id (b.taken req).orders := by
  have hrest := restingOf_taken b req id
  have hsum := tradedQty_trades b req
  rw [tradedQty_taker, tradedQty_maker]
  split_ifs
  · omega
  · omega

@[simp] theorem tradedQty_nil : tradedQty [] = 0 := rfl

/-- What an `add` shows. -/
theorem Step.Follows.add (hf : st.Follows) (hop : st.op = .add req) {ts : List Trade} {b' : Book}
    (hadd : st.before.book.addWith Book.coversWrapping req = (ts, b')) :
    st.result.answer = .trades ts ∧ st.result.book.book = b' := by
  rw [Step.Follows, hop, Book.callWith, hadd] at hf
  exact Prod.mk.inj hf

/-- The account of an `add` that is no cancel, once it is known what it discards. -/
theorem Step.balanced_add (hf : st.Follows) (hop : st.op = .add req) (htype : req.type ≠ .cancel) {ts : List Trade}
    {b' : Book} (hadd : st.before.book.addWith Book.coversWrapping req = (ts, b'))
    (hbal : ∀ id, (if req.id = id then req.qty.toNat else 0) + restingOf id st.before.book.orders =
      tradedQty (ts.filter (·.takerId = id)) + tradedQty (ts.filter (·.makerId = id)) + st.discarded id +
        restingOf id b'.orders) : st.Balanced := by
  obtain ⟨hans, hbook⟩ := hf.add hop hadd
  intro id
  have hsub : st.submitted id = if req.id = id then req.qty.toNat else 0 := by
    simp only [Step.submitted, hop, htype, ne_eq, not_false_eq_true, true_and]
  have hrem : st.removed id = 0 := by
    simp only [Step.removed, hop, htype, false_and, if_false]
  rw [hsub, hrem, Step.asTaker, Step.asMaker, hans, resting, resting, hbook]
  exact hbal id

theorem Step.balanced_limit (hf : st.Follows) (hop : st.op = .add req) (htype : req.type = .limit) : st.Balanced := by
  refine Step.balanced_add hf hop (by rw [htype]; decide) (by rw [Book.addWith, htype]) fun id => ?_
  have hbal := traded_balance st.before.book req id
  have hdisc : st.discarded id = 0 := by
    simp only [Step.discarded, hop, htype, ite_self]
  rw [hdisc, hbal]
  by_cases hleft : 0 < (st.before.book.take req).left
  · rw [if_pos hleft, restingOf_join]
    omega
  · have hz : (st.before.book.take req).left = 0 := by omega
    rw [if_neg hleft, hz, ite_self]

/-- Market and IOC discard what they do not trade. -/
theorem Step.balanced_sweep (hf : st.Follows) (hop : st.op = .add req) (htype : req.type = .market ∨ req.type = .ioc) :
    st.Balanced := by
  have hadd : st.before.book.addWith Book.coversWrapping req = (st.before.book.trades req, st.before.book.taken req) := by
    rw [Book.addWith]
    rcases htype with htype | htype <;> rw [htype]
  refine Step.balanced_add hf hop (by rcases htype with htype | htype <;> rw [htype] <;> decide) hadd fun id => ?_
  have hsum := tradedQty_trades st.before.book req
  have hdisc : st.discarded id = if req.id = id then (st.before.book.take req).left else 0 := by
    simp only [Step.discarded, hop, (hf.add hop hadd).1, Answer.tradeList]
    rcases htype with htype | htype <;> rw [htype] <;> dsimp only <;> split_ifs <;> omega
  rw [hdisc]
  exact traded_balance st.before.book req id

/-- FOK trades all or nothing. -/
theorem Step.balanced_fok (hf : st.Follows) (hop : st.op = .add req) (htype : req.type = .fok) : st.Balanced := by
  have hne : req.type ≠ .cancel := by rw [htype]; decide
  have hdisc : ∀ {ts b'} id, st.before.book.addWith Book.coversWrapping req = (ts, b') →
      st.discarded id = if req.id = id then if ts = [] then req.qty.toNat else 0 else 0 := by
    intro ts b' id hadd
    simp only [Step.discarded, hop, htype, (hf.add hop hadd).1, Answer.tradeList]
  by_cases hc : st.before.book.coversWrapping req = true
  · -- accepted: nothing is left, so an order without trades had no quantity
    have hadd : st.before.book.addWith Book.coversWrapping req =
        (st.before.book.trades req, st.before.book.taken req) := by
      rw [Book.addWith, htype]
      exact if_pos hc
    refine Step.balanced_add hf hop hne hadd fun id => ?_
    have hsum := tradedQty_trades st.before.book req
    have hbal := traded_balance st.before.book req id
    rw [take_left_of_covers hc] at hsum hbal
    have hempty : st.before.book.trades req = [] → req.qty.toNat = 0 := by
      intro he
      rw [he] at hsum
      exact hsum.symm
    rw [hbal, hdisc id hadd]
    split_ifs with hid he
    · rw [hempty he]
    · rfl
    · rfl
  · have hadd : st.before.book.addWith Book.coversWrapping req = ([], st.before.book) := by
      rw [Book.addWith, htype]
      exact if_neg hc
    refine Step.balanced_add hf hop hne hadd fun id => ?_
    rw [hdisc id hadd, if_pos rfl, List.filter_nil, List.filter_nil, tradedQty_nil]
    omega

/-- PostOnly rests or is discarded. -/
theorem Step.balanced_postOnly (hf : st.Follows) (hop : st.op = .add req) (htype : req.type = .postOnly)
    (hnew : req.id ∉ st.before.book.ids) : st.Balanced := by
  have hne : req.type ≠ .cancel := by rw [htype]; decide
  have hdisc : ∀ {ts b'} id, st.before.book.addWith Book.coversWrapping req = (ts, b') →
      st.discarded id = if req.id = id then if id ∈ b'.ids then 0 else req.qty.toNat else 0 := by
    intro ts b' id hadd
    simp only [Step.discarded, hop, htype, (hf.add hop hadd).2]
  by_cases hx : st.before.book.crosses req = true
  · have hadd : st.before.book.addWith Book.coversWrapping req = ([], st.before.book) := by
      rw [Book.addWith, htype, hx]
      rfl
    refine Step.balanced_add hf hop hne hadd fun id => ?_
    rw [hdisc id hadd, List.filter_nil, List.filter_nil, tradedQty_nil]
    split_ifs with hid hmem
    · exact absurd (hid ▸ hmem) hnew
    · omega
    · omega
  · have hadd : st.before.book.addWith Book.coversWrapping req = ([], st.before.book.join req req.qty.toNat) := by
      rw [Book.addWith, htype, Bool.eq_false_iff.mpr hx]
      rfl
    refine Step.balanced_add hf hop hne hadd fun id => ?_
    have hjoined : req.id ∈ (st.before.book.join req req.qty.toNat).ids :=
      List.mem_map_of_mem (mem_side_orders (mem_side_join.mpr (Or.inr ⟨rfl, rfl⟩)))
    rw [hdisc id hadd, restingOf_join, List.filter_nil, List.filter_nil, tradedQty_nil]
    split_ifs with hid hmem
    · omega
    · exact absurd (hid ▸ hjoined) hmem
    · omega

/-- The orders that a `cancel` leaves. -/
theorem restingOf_cancel (b : Book) (id id' : OrderId) :
    restingOf id' (b.cancel id).2.orders = if id = id' then 0 else restingOf id' b.orders := by
  have horders : (b.cancel id).2.orders = remove id b.orders := (remove_append id b.bids b.asks).symm
  rw [horders, restingOf_remove]

theorem Step.balanced_cancel {id' : OrderId} (hf : st.Follows)
    (hop : st.op = .cancel id' ∨ ∃ req, st.op = .add req ∧ req.type = .cancel ∧ req.id = id') : st.Balanced := by
  have hbook : st.result.book.book = (st.before.book.cancel id').2 := by
    rw [Step.Follows] at hf
    rcases hop with hop | ⟨req, hop, htype, rfl⟩
    · rw [hop] at hf
      exact (Prod.mk.inj hf).2
    · rw [hop, Book.callWith, Book.addWith, htype] at hf
      exact (Prod.mk.inj hf).2
  have hans : st.result.answer.tradeList = [] := by
    rw [Step.Follows] at hf
    rcases hop with hop | ⟨req, hop, htype, rfl⟩
    · rw [hop] at hf
      rw [(Prod.mk.inj hf).1]
      rfl
    · rw [hop, Book.callWith, Book.addWith, htype] at hf
      rw [(Prod.mk.inj hf).1]
      rfl
  intro id
  have hrem : st.removed id = if id' = id then st.before.resting id else 0 := by
    rcases hop with hop | ⟨req, hop, htype, rfl⟩
    · simp only [Step.removed, hop]
    · simp only [Step.removed, hop, htype, true_and]
  have hsub : st.submitted id = 0 := by
    rcases hop with hop | ⟨req, hop, htype, rfl⟩
    · simp only [Step.submitted, hop]
    · simp [Step.submitted, hop, htype]
  have hdisc : st.discarded id = 0 := by
    rcases hop with hop | ⟨req, hop, htype, rfl⟩
    · simp only [Step.discarded, hop]
    · simp [Step.discarded, hop, htype]
  rw [hrem, hsub, hdisc, Step.asTaker, Step.asMaker, hans]
  simp only [resting, hbook, restingOf_cancel]
  show _ = 0 + 0 + _ + 0 + _
  split_ifs <;> omega

theorem Step.balanced_reduce {id' : OrderId} {delta : Quantity} (hf : st.Follows) (hop : st.op = .reduce id' delta)
    (hnd : st.before.book.ids.Nodup) : st.Balanced := by
  rw [Step.Follows, hop] at hf
  obtain ⟨hans, hbook⟩ := Prod.mk.inj hf
  have horders : (st.before.book.reduce id' delta).2.orders = reduceBy id' delta.toNat st.before.book.orders :=
    (reduceBy_append id' delta.toNat st.before.book.bids st.before.book.asks).symm
  intro id
  have hred := restingOf_reduceBy hnd id' delta.toNat id
  simp only [Step.submitted, Step.asTaker, Step.asMaker, Step.removed, Step.discarded, hop, hans, hbook,
    Answer.tradeList, resting, horders]
  show _ = 0 + 0 + _ + 0 + _
  omega

end Balance

/-- The ids of a book are distinct, if the index names every order. -/
theorem Tracked.ids_nodup {s : OrderBookV2} {c : Layout} (t : Tracked s c) (h : Settled s c) :
    (s.bookOf c).ids.Nodup := by
  have hup : ∀ n i, (up (s.queue c) n i).map (·.id) = (up c n i).map fun x => (s.arena x).id := by
    intro n i
    rw [← up_hom (List.map fun x => (s.arena x).id) rfl (fun _ _ => List.map_append),
      ← up_hom (List.map fun o : Order ℤ OrderId => o.id) rfl (fun _ _ => List.map_append)]
    exact up_congr fun j _ _ => List.map_map
  have hdown : ∀ i, (down (s.queue c) i).map (·.id) = (down c i).map fun x => (s.arena x).id := by
    intro i
    rw [← down_hom (List.map fun x => (s.arena x).id) rfl (fun _ _ => List.map_append),
      ← down_hom (List.map fun o : Order ℤ OrderId => o.id) rfl (fun _ _ => List.map_append)]
    exact down_congr fun j _ => List.map_map
  have hcells : (down c s.cut ++ up c (s.levels.length - s.cut) s.cut).Nodup := by
    have hsplit := up_add c s.cut (s.levels.length - s.cut) 0
    rw [Nat.zero_add] at hsplit
    refine ((down_perm_up c s.cut).append_right _).nodup_iff.mpr ?_
    rw [← hsplit]
    exact nodup_up h.partition.nodup h.partition.apart _ _
  rw [Book.ids, Book.orders, bookOf, List.map_append, hdown, hup, ← List.map_append]
  refine List.Nodup.map_on (fun x hx y hy he => ?_) hcells
  have hmem : ∀ {z}, z ∈ down c s.cut ++ up c (s.levels.length - s.cut) s.cut → ∃ i, z ∈ c i := by
    intro z hz
    rcases List.mem_append.mp hz with hz | hz
    · obtain ⟨i, -, hi⟩ := mem_down.mp hz
      exact ⟨i, hi⟩
    · obtain ⟨i, -, -, hi⟩ := mem_up.mp hz
      exact ⟨i, hi⟩
  obtain ⟨i, hi⟩ := hmem hx
  obtain ⟨j, hj⟩ := hmem hy
  exact t.cell_inj hi hj he

/-- **A step in a run is balanced.** -/
theorem Step.balanced {s : OrderBookV2} {op : Call} {r : CallResult} {c c' : Layout} (h : Settled s c) (t : Tracked s c)
    (hop : op.Allowed (s.bookOf c).ids) (hr : Called s c op r c') (hn : r.thrown = none) :
    (Step.mk s op r).Balanced := by
  have hf : (Step.mk s op r).Follows := by
    have hret := hr.returned hn
    rw [← hr.settled.book_eq, ← h.book_eq] at hret
    exact hret
  rw [← h.book_eq] at hop
  have hnd := t.ids_nodup h
  rw [← h.book_eq] at hnd
  cases op with
  | cancel id => exact Step.balanced_cancel hf (Or.inl rfl)
  | reduce id delta => exact Step.balanced_reduce hf rfl hnd
  | add req =>
    cases htype : req.type with
    | cancel => exact Step.balanced_cancel hf (Or.inr ⟨req, rfl, htype, rfl⟩)
    | limit => exact Step.balanced_limit hf rfl htype
    | market => exact Step.balanced_sweep hf rfl (Or.inl htype)
    | ioc => exact Step.balanced_sweep hf rfl (Or.inr htype)
    | fok => exact Step.balanced_fok hf rfl htype
    | postOnly => exact Step.balanced_postOnly hf rfl htype (hop.2 (by rw [htype]; decide))

/-! ### The whole run -/

/-- The account of a run that starts with some orders resting. -/
theorem Settled.conserved {s : OrderBookV2} {c : Layout} {P : OrderBookV2 → Prop} {ops : List Call} (h : Settled s c)
    (t : Tracked s c) (hrun : s.Returning P ops) (id : OrderId) :
    ∃ s', s.after ops = some s' ∧
      overSteps Step.submitted (s.steps ops) id + s.resting id =
        overSteps Step.asTaker (s.steps ops) id + overSteps Step.asMaker (s.steps ops) id +
          overSteps Step.removed (s.steps ops) id + overSteps Step.discarded (s.steps ops) id + s'.resting id := by
  induction ops generalizing s c with
  | nil =>
    refine ⟨s, rfl, ?_⟩
    show 0 + _ = 0 + 0 + 0 + 0 + _
    omega
  | cons op ops ih =>
    have hop := hrun.2.1
    obtain ⟨-, r, c', hcall, hr, hn, hrest⟩ := h.returning_cons t hrun
    obtain ⟨s', hafter, hsum⟩ := ih hr.settled hr.tracked hrest
    have hstep := Step.balanced h t (by rw [← h.book_eq]; exact hop) hr hn id
    dsimp only at hstep
    have hsteps : s.steps (op :: ops) = ⟨s, op, r⟩ :: r.book.steps ops := by rw [OrderBookV2.steps, hcall]
    refine ⟨s', ?_, ?_⟩
    · rw [OrderBookV2.after, if_pos hop, hcall]
      exact hafter
    · simp only [hsteps, overSteps, List.map_cons, List.sum_cons] at hsum ⊢
      omega

/-- **Share conservation**, for every id and every run in which no call throws or overflows: what was
submitted under the id is what it traded on either side, what was removed or discarded, and what
rests. So it never trades more than was submitted. An id may be used again once it no longer rests. -/
theorem shares_conserved {capacity : UInt32} {window : ℤ} {ops : List Call}
    (hrun : (OrderBookV2.new capacity window).Returning (fun _ => True) ops) (id : OrderId) :
    ∃ s, (OrderBookV2.new capacity window).after ops = some s ∧
      let steps := (OrderBookV2.new capacity window).steps ops
      overSteps Step.submitted steps id =
        overSteps Step.asTaker steps id + overSteps Step.asMaker steps id + overSteps Step.removed steps id +
          overSteps Step.discarded steps id + s.resting id ∧
      overSteps Step.asTaker steps id + overSteps Step.asMaker steps id ≤ overSteps Step.submitted steps id := by
  have hnew := settled_new capacity window
  obtain ⟨s, hafter, hsum⟩ := hnew.conserved (tracked_new capacity window) hrun id
  have hzero : (OrderBookV2.new capacity window).resting id = 0 := by
    rw [resting, hnew.book_eq]
    rfl
  refine ⟨s, hafter, ?_⟩
  constructor
  · omega
  · omega

/-- An order that trades as taker and as maker, is reduced, and has a rest. -/
theorem shares_conserved_run :
    let ops : List Call := [.add ⟨1, .sell, .limit, 100, 4⟩, .add ⟨2, .buy, .limit, 100, 10⟩, .reduce 2 1,
      .add ⟨3, .sell, .ioc, 99, 2⟩]
    ∃ s, (OrderBookV2.new 4 8).after ops = some s ∧ s.resting 2 = 3 ∧
      overSteps Step.submitted ((OrderBookV2.new 4 8).steps ops) 2 =
        overSteps Step.asTaker ((OrderBookV2.new 4 8).steps ops) 2 +
          overSteps Step.asMaker ((OrderBookV2.new 4 8).steps ops) 2 +
          overSteps Step.removed ((OrderBookV2.new 4 8).steps ops) 2 +
          overSteps Step.discarded ((OrderBookV2.new 4 8).steps ops) 2 + s.resting 2 := by
  intro ops
  obtain ⟨s, hs, hsum, -⟩ := shares_conserved (show (OrderBookV2.new 4 8).Returning (fun _ => True) ops by decide) 2
  have hrest : ((OrderBookV2.new 4 8).after ops).map (fun s => s.resting 2) = some 3 := by decide +kernel
  rw [hs] at hrest
  exact ⟨s, hs, Option.some.inj hrest, hsum⟩

end MatchingEngine
