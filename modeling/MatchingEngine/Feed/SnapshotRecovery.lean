import MatchingEngine.Feed.Rejections
import MatchingEngine.Feed.RetransmissionRuns
import MatchingEngine.Feed.TcpSocket

/-!
# Recovery from a snapshot, end to end

The scenario of `test_snapshot_recovery.cpp`: a sequencer handles messages and its events are
numbered; a snapshot of the first `k` events goes to a late subscriber over TCP; the other
events are published, and whatever the network loses is asked for again. The last check of the
test is that the best prices which the subscriber finds in its rows are those of every book.

`lateJoiner_bestPrices` says that the check passes from some moment on, in every fair run, for
every split, packet size, loss, reordering and duplication, and however the kernels cut the TCP
stream. An event says what a message has done to the books if the message is not rejected, or
has left them as they were; that is what is asked of the messages.
-/

namespace MatchingEngine

open Foundation Itch Mdfeed Snapshot Moldudp64 OrderBookV2

/-! ### The best prices of a set of rows -/

/-- `struct TrueState`. -/
structure TrueState where
  /-- `has_bid`. -/
  hasBid : Bool := false
  /-- `has_ask`. -/
  hasAsk : Bool := false
  /-- `best_bid`. -/
  bestBid : ℤ := 0
  /-- `best_ask`. -/
  bestAsk : ℤ := 0
  deriving DecidableEq

namespace TrueState

/-- The body of the loop over the final rows. -/
def see (st : TrueState) (r : SnapshotRow) : TrueState :=
  match r.side with
  | .buy => if !st.hasBid || st.bestBid < r.price then { st with hasBid := true, bestBid := r.price } else st
  | .sell => if !st.hasAsk || r.price < st.bestAsk then { st with hasAsk := true, bestAsk := r.price } else st

/-- The best price of a side, if there is one. -/
def best (st : TrueState) : Side → Option ℤ
  | .buy => if st.hasBid then some st.bestBid else none
  | .sell => if st.hasAsk then some st.bestAsk else none

/-- A side without a price shows zero. -/
structure Blank (st : TrueState) : Prop where
  bid : st.hasBid = false → st.bestBid = 0
  ask : st.hasAsk = false → st.bestAsk = 0

theorem best_see (st : TrueState) (r : SnapshotRow) (side : Side) :
    (st.see r).best side = if side = r.side ∧ (st.best side).all (side.ahead r.price) then some r.price else st.best side := by
  rw [see]
  cases hr : r.side <;> cases side <;> simp only [best] <;> split_ifs <;> simp_all [Side.ahead] <;> omega

theorem Blank.see {st : TrueState} (h : st.Blank) (r : SnapshotRow) : (st.see r).Blank := by
  rw [TrueState.see]
  cases r.side with
  | buy =>
    dsimp only
    split_ifs
    · exact ⟨fun hno => absurd hno (by simp), h.ask⟩
    · exact h
  | sell =>
    dsimp only
    split_ifs
    · exact ⟨h.bid, fun hno => absurd hno (by simp)⟩
    · exact h

/-- The two sides are all there is to it. -/
theorem ext_best {st st' : TrueState} (h : st.Blank) (h' : st'.Blank) (hbest : ∀ side, st.best side = st'.best side) :
    st = st' := by
  obtain ⟨bid, ask, bestBid, bestAsk⟩ := st
  obtain ⟨bid', ask', bestBid', bestAsk'⟩ := st'
  have hbuy := hbest .buy
  have hsell := hbest .sell
  have := h.bid
  have := h.ask
  have := h'.bid
  have := h'.ask
  cases bid <;> cases bid' <;> cases ask <;> cases ask' <;> simp_all [best]

end TrueState

/-- The loop over the final rows: a map from symbols to states. -/
def reconstructed (rows : List SnapshotRow) : Bytes → TrueState :=
  rows.foldl (fun m r => Function.update m (symbolStr r.symbol) ((m (symbolStr r.symbol)).see r)) fun _ => {}

/-- What the test records of a book at the end of the run. -/
def trueState (s : OrderBookV2) : Except Ub TrueState := do
  let bestBid ← if s.hasBid then s.bestBid else .ok 0
  let bestAsk ← if s.hasAsk then s.bestAsk else .ok 0
  .ok { hasBid := s.hasBid, hasAsk := s.hasAsk, bestBid, bestAsk }

/-- The best of some prices, for a side. -/
def BestOf (side : Side) (prices : Set ℤ) : Option ℤ → Prop
  | none => prices = ∅
  | some p => p ∈ prices ∧ ∀ q ∈ prices, side.ahead q p = false

theorem BestOf.insert {side : Side} {prices : Set ℤ} {b : Option ℤ} (h : BestOf side prices b) (p : ℤ) :
    BestOf side (insert p prices) (if b.all (side.ahead p) then some p else b) := by
  cases b with
  | none =>
    obtain rfl : prices = ∅ := h
    refine ⟨Set.mem_insert _ _, fun q hq => ?_⟩
    rw [(Set.mem_insert_iff.mp hq).resolve_right (Set.notMem_empty q)]
    cases side <;> simp [Side.ahead]
  | some q =>
    obtain ⟨hq, hall⟩ := h
    simp only [Option.all_some]
    split_ifs with hahead
    · refine ⟨Set.mem_insert _ _, fun x hx => ?_⟩
      rcases Set.mem_insert_iff.mp hx with rfl | hx
      · cases side <;> simp [Side.ahead]
      · have := hall x hx
        cases side <;> simp only [Side.ahead, decide_eq_true_eq, decide_eq_false_iff_not] at * <;> omega
    · refine ⟨Set.mem_insert_of_mem _ hq, fun x hx => ?_⟩
      rcases Set.mem_insert_iff.mp hx with rfl | hx
      · exact Bool.eq_false_iff.mpr hahead
      · exact hall x hx

/-- There is one best price at most. -/
theorem BestOf.unique {side : Side} {prices : Set ℤ} {b b' : Option ℤ} (h : BestOf side prices b)
    (h' : BestOf side prices b') : b = b' := by
  cases b with
  | none =>
    cases b' with
    | none => rfl
    | some p => exact absurd (h ▸ h'.1 : p ∈ (∅ : Set ℤ)) (Set.notMem_empty p)
  | some p =>
    cases b' with
    | none => exact absurd (h' ▸ h.1 : p ∈ (∅ : Set ℤ)) (Set.notMem_empty p)
    | some q =>
      have hpq := h.2 q h'.1
      have hqp := h'.2 p h.1
      congr 1
      cases side <;> simp only [Side.ahead, decide_eq_false_iff_not] at * <;> omega

/-- The prices of a symbol's rows, on one side. -/
def rowPrices (rows : List SnapshotRow) (symbol : Bytes) (side : Side) : Set ℤ :=
  {p | ∃ r ∈ rows, symbolStr r.symbol = symbol ∧ r.side = side ∧ r.price = p}

/-- One row more. -/
theorem rowPrices_concat (rows : List SnapshotRow) (r : SnapshotRow) (symbol : Bytes) (side : Side) :
    rowPrices (rows ++ [r]) symbol side =
      if symbolStr r.symbol = symbol ∧ r.side = side then insert r.price (rowPrices rows symbol side)
      else rowPrices rows symbol side := by
  ext p
  have hmem : p ∈ rowPrices (rows ++ [r]) symbol side ↔
      p ∈ rowPrices rows symbol side ∨ symbolStr r.symbol = symbol ∧ r.side = side ∧ r.price = p := by
    constructor
    · rintro ⟨q, hq, hrest⟩
      rcases List.mem_append.mp hq with hq | hq
      · exact .inl ⟨q, hq, hrest⟩
      · rw [List.mem_singleton.mp hq] at hrest
        exact .inr hrest
    · rintro (⟨q, hq, hrest⟩ | hrest)
      · exact ⟨q, List.mem_append_left _ hq, hrest⟩
      · exact ⟨r, by simp, hrest⟩
  rw [hmem]
  split_ifs with h
  · rw [Set.mem_insert_iff, or_comm, eq_comm (a := p), and_iff_right h.1, and_iff_right h.2]
  · exact or_iff_left fun hrest => h ⟨hrest.1, hrest.2.1⟩

/-- **What the loop finds**: the best price of each symbol's rows, on each side. -/
theorem reconstructed_spec (rows : List SnapshotRow) (symbol : Bytes) :
    (reconstructed rows symbol).Blank ∧
      ∀ side, BestOf side (rowPrices rows symbol side) ((reconstructed rows symbol).best side) := by
  induction rows using List.reverseRecOn with
  | nil =>
    refine ⟨⟨fun _ => rfl, fun _ => rfl⟩, fun side => ?_⟩
    have hnone : rowPrices [] symbol side = ∅ := by simp [rowPrices]
    cases side <;> exact hnone
  | append_singleton rows r ih =>
    obtain ⟨hblank, hbest⟩ := ih
    have hfold : reconstructed (rows ++ [r]) = Function.update (reconstructed rows) (symbolStr r.symbol)
        ((reconstructed rows (symbolStr r.symbol)).see r) := by
      rw [reconstructed, List.foldl_append]
      rfl
    rw [hfold]
    by_cases hsymbol : symbolStr r.symbol = symbol
    · subst hsymbol
      rw [Function.update_self]
      refine ⟨hblank.see r, fun side => ?_⟩
      rw [TrueState.best_see, rowPrices_concat]
      by_cases hside : r.side = side
      · rw [if_pos ⟨rfl, hside⟩]
        simpa only [hside, true_and] using (hbest side).insert r.price
      · rw [if_neg fun h => hside h.2, if_neg fun h => hside h.1.symm]
        exact hbest side
    · rw [Function.update_of_ne (Ne.symm hsymbol)]
      refine ⟨hblank, fun side => ?_⟩
      rw [rowPrices_concat, if_neg fun h => hsymbol h.1]
      exact hbest side

/-! ### A builder in sync finds the best prices of every book -/

/-- The rows of a builder in sync have the prices of the orders that rest. -/
theorem rowPrices_inSync {bld : Builder} {σ : Shard} (hok : bld.Ok) (h : InSync bld σ) (symbol : Bytes) (side : Side) :
    rowPrices bld.rows symbol side = {p | ∃ o ∈ (σ.book symbol).side side, o.price = p} := by
  ext p
  constructor
  · rintro ⟨r, hr, rfl, rfl, rfl⟩
    have hshown := (mem_rows hok r).mp hr
    exact ⟨⟨r.orderId, r.price, r.qty.toNat⟩, (h _ r.side _).mpr ⟨_, hshown, rfl, rfl, rfl⟩, rfl⟩
  · rintro ⟨o, ho, rfl⟩
    obtain ⟨x, hx, hside, hprice, -⟩ := (h symbol side o).mp ho
    have hmem : symbol ∈ bld.books := by
      by_contra hnot
      rw [Builder.shown, Builder.book, AList.lookup_eq_none.mpr hnot] at hx
      cases hx
    have hsymbol := hok.trimmed symbol hmem
    refine ⟨⟨symbolPad symbol, o.id, x.side, x.price, x.qty⟩, (mem_rows hok _).mpr ?_, hsymbol, hside, hprice⟩
    rw [hsymbol]
    exact hx

/-- What the test records of a sound book. -/
theorem Settled.trueState {s : OrderBookV2} {c : Layout} (h : Settled s c) :
    trueState s = .ok
      { hasBid := ((s.bookOf c).best .buy).isSome
        hasAsk := ((s.bookOf c).best .sell).isSome
        bestBid := ((s.bookOf c).best .buy).getD 0
        bestAsk := ((s.bookOf c).best .sell).getD 0 } := by
  rw [MatchingEngine.trueState, h.hasBid_eq, h.hasAsk_eq, h.bestBid_eq, h.bestAsk_eq]
  cases (s.bookOf c).best .buy <;> cases (s.bookOf c).best .sell <;> rfl

/-- **What the test finds and what it records are the same.** -/
theorem trueState_eq {bld : Builder} {σ : Shard} {used : List OrderId} (hok : bld.Ok) (hσ : σ.Ok used) (h : InSync bld σ)
    (symbol : Bytes) : trueState (σ.books symbol) = .ok (reconstructed bld.rows symbol) := by
  have hset := (hσ.sound symbol).settled
  have hsorted : (σ.book symbol).Sorted := by
    rw [Shard.book, hset.book_eq]
    exact bookOf_sorted _ _
  obtain ⟨hblank, hbest⟩ := reconstructed_spec bld.rows symbol
  have hengine : ∀ side, (σ.book symbol).best side = (reconstructed bld.rows symbol).best side := by
    intro side
    refine BestOf.unique (?_ : BestOf side (rowPrices bld.rows symbol side) _) (hbest side)
    rw [rowPrices_inSync hok h]
    cases hb : (σ.book symbol).best side with
    | none =>
      rw [best_eq_none] at hb
      simp [BestOf, hb]
    | some p =>
      obtain ⟨hmem, hall⟩ := ahead_of_best hsorted hb
      refine ⟨hmem, ?_⟩
      rintro q ⟨o, ho, rfl⟩
      exact hall o ho
  rw [Shard.book, hset.book_eq] at hengine
  rw [hset.trueState]
  refine congrArg Except.ok (TrueState.ext_best ?_ hblank fun side => ?_)
  · constructor <;> simp +contextual
  · rw [← hengine side]
    cases side with
    | buy => cases hb : ((σ.books symbol).bookOf (σ.books symbol).levelNodes).best .buy <;> rfl
    | sell => cases ha : ((σ.books symbol).bookOf (σ.books symbol).levelNodes).best .sell <;> rfl

/-! ### The prices of events -/

namespace Shard

variable {σ : Shard} {used : List OrderId} {ref : OrderId} {info : OrderInfo} {req : OrderRequest} {m : Message} {r : Handled}

theorem inI64_of_u32 (price : UInt32) : InI64 price.toNat := by
  have := price.toNat_lt
  constructor
  · omega
  · omega

/-- A trade has the price of an order that rested. -/
theorem price_tradeOutputs {s : OrderBookV2} {a : AddResult} (hs : s.book.Ordinary) (ha : LimitAdded s req a)
    {timestampNs : UInt64} {e : MDEvent} (he : e ∈ eventsOf (tradeOutputs req info timestampNs a.trades)) :
    InI64 e.price := by
  obtain ⟨t, ht, he⟩ := List.mem_flatMap.mp (mem_eventsOf.mp he)
  simp only [List.mem_cons, List.not_mem_nil, or_false, reduceCtorEq, false_or, Emitted.event.injEq] at he
  rw [ha.trades] at ht
  obtain ⟨f, hf, rfl⟩ := List.mem_map.mp ht
  obtain ⟨o, ho, -, hprice, -⟩ := order_of_mem_fills hf
  obtain ⟨-, hlow, hhigh⟩ := hs _ o ho
  rw [he]
  show InI64 f.price
  rw [← hprice]
  exact ⟨by omega, by omega⟩

theorem Adds.event_price (hok : σ.Ok used) {timestampNs : UInt64} (hr : Adds σ info req timestampNs r)
    (hprice : InI64 req.price) : ∀ e ∈ eventsOf r.emitted, InI64 e.price := by
  intro e he
  cases hr with
  | declined => cases he
  | threw => cases he
  | escaped => cases he
  | returned v a add _ _ _ ha _ hadd =>
    rcases List.mem_append.mp (mem_eventsOf.mp he) with he | he
    · rcases List.mem_cons.mp he with he | he
      · cases he
      · split_ifs at he
        · rw [Emitted.event.inj (List.mem_singleton.mp he), hadd]
          exact hprice
        · cases he
    · exact price_tradeOutputs (hok.sound info.symbol).ordinary ha (mem_eventsOf.mpr he)

theorem TakesShares.event_price {shares : UInt32} {counted : Stats → Stats} {onRisk : OrderInfo → RiskEngine → RiskEngine}
    {event : OrderInfo → MDEvent} (hr : TakesShares σ ref shares counted onRisk event r)
    (hprice : ∀ info, InI64 (event info).price) : ∀ e ∈ eventsOf r.emitted, InI64 e.price := by
  intro e he
  cases hr with
  | unknown => cases he
  | known info s =>
    rw [Emitted.event.inj (List.mem_singleton.mp (mem_eventsOf.mp he))]
    exact hprice info

theorem Deletes.event_price {m : OrderDelete} (hr : Deletes σ m r) : ∀ e ∈ eventsOf r.emitted, InI64 e.price := by
  intro e he
  cases hr with
  | unknown => cases he
  | known info s =>
    rw [Emitted.event.inj (List.mem_singleton.mp (mem_eventsOf.mp he))]
    exact inI64_of_u32 0

theorem Replaces.event_price {m : OrderReplace} (hr : Replaces σ m r) : ∀ e ∈ eventsOf r.emitted, InI64 e.price := by
  intro e he
  cases hr with
  | unknown => cases he
  | declined => cases he
  | threw => cases he
  | escaped => cases he
  | returned info s v a hw _ _ _ ha =>
    obtain he | he := List.mem_cons.mp (show e ∈ _ :: eventsOf _ from he)
    · rw [he, replaceEvent]
      split_ifs
      · exact inI64_of_u32 m.price
      · exact inI64_of_u32 0
    · exact price_tradeOutputs hw.sound.ordinary ha he

/-- **The price of every event** is one of 64 bits. -/
theorem Handles.event_price (hr : Handles σ m r) (hok : σ.Ok used) : ∀ e ∈ eventsOf r.emitted, InI64 e.price := by
  cases hr with
  | addOrderNoMPID hr => exact hr.event_price hok (inI64_of_u32 _)
  | addOrderMPID hr => exact hr.event_price hok (inI64_of_u32 _)
  | orderCancel hr => exact hr.event_price fun _ => inI64_of_u32 0
  | orderExecuted hr => exact hr.event_price fun _ => inI64_of_u32 0
  | nonPrintable => exact fun e he => by cases he
  | orderExecutedWithPrice _ hr => exact hr.event_price fun _ => inI64_of_u32 _
  | orderDelete hr => exact hr.event_price
  | orderReplace hr => exact hr.event_price
  | other => exact fun e he => by cases he

/-! ### The run of the sequencer -/

/-- Every message that is rejected has left the books as they were. -/
def RejectsQuietly (config : Bytes → BookConfig) (risk : Option RiskEngine.Config) (ms : List Message) : Prop :=
  ∀ past m, past ++ [m] <+: ms → ∀ σ es r, (new config risk).run past = .ok (σ, es) → σ.onMessage m = .ok r →
    r.Rejected → σ.Quiet m

/-- A run in two parts. -/
theorem run_append {σ' : Shard} {xs ys : List Message} {es : List Emitted} (h : σ.run (xs ++ ys) = .ok (σ', es)) :
    ∃ mid es₁ es₂, σ.run xs = .ok (mid, es₁) ∧ mid.run ys = .ok (σ', es₂) ∧ es = es₁ ++ es₂ := by
  induction xs generalizing σ es with
  | nil => exact ⟨σ, [], es, rfl, h, rfl⟩
  | cons x xs ih =>
    obtain ⟨r, hr, h⟩ := bind_eq_ok.mp h
    obtain ⟨⟨σ₁, es₁⟩, hrest, h⟩ := bind_eq_ok.mp h
    obtain ⟨rfl, rfl⟩ := Prod.mk.inj (Except.ok.inj h)
    obtain ⟨mid, fs, gs, hxs, hys, rfl⟩ := ih hrest
    refine ⟨mid, r.emitted ++ fs, gs, ?_, hys, (List.append_assoc ..).symm⟩
    rw [run, hr, ok_bind, hxs, ok_bind]

/-- Nothing is asked of a run without rejections. -/
theorem RejectsQuietly.of_none {config : Bytes → BookConfig} {risk : Option RiskEngine.Config} {ms : List Message}
    {es : List Emitted} (hrun : (new config risk).run ms = .ok (σ, es)) (hnone : es.any (·.reports .reject) = false) :
    RejectsQuietly config risk ms := by
  rintro past m ⟨rest, rfl⟩ σ₁ es₁ r hpast hr ⟨rep, hrep, htype⟩
  rw [List.append_assoc] at hrun
  obtain ⟨mid, fs, gs, hfs, hgs, rfl⟩ := run_append hrun
  obtain ⟨rfl, rfl⟩ := Prod.mk.inj (Except.ok.inj (hfs.symm.trans hpast))
  obtain ⟨r', hr', hgs⟩ := bind_eq_ok.mp hgs
  obtain ⟨⟨σ₂, es₂⟩, -, hgs⟩ := bind_eq_ok.mp hgs
  obtain rfl : r' = r := Except.ok.inj (hr'.symm.trans hr)
  obtain ⟨-, rfl⟩ := Prod.mk.inj (Except.ok.inj hgs)
  have hmem : Emitted.report rep ∈ fs ++ (r'.emitted ++ es₂) := List.mem_append_right _ (List.mem_append_left _ hrep)
  have := List.any_eq_false.mp hnone _ hmem
  exact absurd (decide_eq_true htype) this

/-- **The events of a run** say what rests at its end. -/
theorem run_inSync (config : Bytes → BookConfig) (risk : Option RiskEngine.Config) {ms : List Message}
    (hnd : (newRefs ms).Nodup) (hquiet : RejectsQuietly config risk ms) :
    ∃ σ es, (new config risk).run ms = .ok (σ, es) ∧ σ.Ok (newRefs ms) ∧
      InSync (Builder.empty.applyAll 1 (eventsOf es)) σ ∧ ∀ e ∈ eventsOf es, InI64 e.price := by
  induction ms using List.reverseRecOn with
  | nil => exact ⟨_, _, rfl, Ok.new config risk, InSync.new config risk, fun e he => by cases he⟩
  | append_singleton past m ih =>
    obtain ⟨σ, es, hrun, hok, hsync, hprices⟩ :=
      ih (nodup_of_snoc hnd) fun past' m' hm' => hquiet past' m' (hm'.trans (List.prefix_append _ _))
    have hfresh := fresh_of_nodup hnd
    obtain ⟨r, hr, hh⟩ := hok.onMessage m hfresh
    have hnew : newRefs (past ++ [m]) = newRefs past ++ m.newRef.toList := by
      rw [newRefs_append]
      cases hm : m.newRef <;> simp [newRefs, hm]
    refine ⟨r.shard, es ++ r.emitted, run_snoc hrun hr, ?_, ?_, fun e he => ?_⟩
    · rw [hnew]
      exact hh.ok hok hfresh
    · rw [eventsOf_append, applyAll_append]
      by_cases hrej : r.Rejected
      · obtain ⟨hnone, hiff⟩ := hh.rejected hok hrej hsync
        rw [hnone]
        exact hiff.mpr (hquiet past m List.prefix_rfl σ es r hrun hr hrej)
      · exact hh.inSync hok hfresh hsync hrej _
    · rw [eventsOf_append] at he
      rcases List.mem_append.mp he with he | he
      · exact hprices e he
      · exact hh.event_price hok e he

end Shard

/-! ### The late subscriber -/

variable {config : Bytes → BookConfig} {risk : Option RiskEngine.Config} {ms : List Message} {σ : Shard} {es : List Emitted}

/-- The rows of a snapshot have prices of 64 bits. -/
theorem price_rows {b : Builder} (h : b.Ok) {rows : List SnapshotRow} (hrows : rows.Perm b.rows) :
    ∀ r ∈ rows, InI64 r.price := by
  intro r hr
  obtain ⟨o, hl, ho⟩ := Option.bind_eq_some_iff.mp ((mem_rows h r).mp (hrows.mem_iff.mp hr))
  obtain ⟨rfl, -⟩ := RestingOrder.shown_eq_some.mp ho
  exact h.prices _ _ _ hl

/-- The builder after the snapshot and the events that come later is in sync, too. -/
theorem inSync_late {events : List MDEvent} (h : InSync (Builder.empty.applyAll 1 events) σ)
    (hprices : ∀ e ∈ events, InI64 e.price) {k : ℕ} (hk : k ≤ events.length) {rows : List SnapshotRow}
    (hrows : rows.Perm (Builder.empty.applyAll 1 (events.take k)).rows) (b₀ : Builder) (asOfSeq : UInt64) :
    ((b₀.load asOfSeq rows).applyAll (UInt64.ofNat k + 1) (events.drop k)).Ok ∧
      InSync ((b₀.load asOfSeq rows).applyAll (UInt64.ofNat k + 1) (events.drop k)) σ := by
  have hearly : (Builder.empty.applyAll 1 (events.take k)).Ok :=
    Builder.Ok.empty.applyAll 1 fun e he => hprices e (List.mem_of_mem_take he)
  constructor
  · refine Builder.Ok.applyAll (Builder.Ok.loadRows ⟨?_, ?_⟩ fun r hr => ?_) _ fun e he => hprices e (List.mem_of_mem_drop he)
    · exact Builder.Ok.empty.trimmed
    · exact Builder.Ok.empty.prices
    · exact price_rows hearly hrows r hr
  · have hfull : Builder.empty.applyAll 1 events =
        (Builder.empty.applyAll 1 (events.take k)).applyAll (UInt64.ofNat k + 1) (events.drop k) := by
      conv_lhs => rw [← List.take_append_drop k events, applyAll_append, List.length_take, Nat.min_eq_left hk,
        UInt64.add_comm]
    have hshown := shown_applyAll (shown_load hearly b₀ asOfSeq fun r => hrows.mem_iff) (UInt64.ofNat k + 1) (events.drop k)
    rw [← hfull] at hshown
    intro symbol
    rw [hshown]
    exact h symbol

/-- **A late subscriber finds the best prices of every book.** It has loaded the snapshot of the first `k` events
over TCP, and its session has started after them; in every fair run its rows give, from some moment on, the state
that is recorded of each book. -/
theorem lateJoiner_bestPrices (hnd : (newRefs ms).Nodup) (hquiet : Shard.RejectsQuietly config risk ms)
    (hrun : (Shard.new config risk).run ms = .ok (σ, es)) {k : ℕ} (hk : k ≤ (eventsOf es).length)
    {rows : List SnapshotRow} (hrows : rows.Perm (Builder.empty.applyAll 1 ((eventsOf es).take k)).rows)
    (hcount : rows.length < 2 ^ 32) {server client : Netfeed.Kernel} {call : ℕ} {got : Option (UInt64 × List SnapshotRow)}
    (hgot : Netfeed.fetch client (Netfeed.serve server call (Builder.empty.applyAll 1 ((eventsOf es).take k)).lastSeq
      rows).1 = .ok got) {P : Publication} (hfirst : P.first = UInt64.ofNat k + 1)
    (hmessages : P.messages = ((eventsOf es).drop k).map encode) {r : Run P} (hfair : r.Fair) :
    ∃ asOfSeq rows', got = some (asOfSeq, rows') ∧ P.first = asOfSeq + 1 ∧
      ∃ t, ∀ u, t ≤ u → ∀ symbol, trueState (σ.books symbol) = .ok (reconstructed
        ((delivered (r.net u).heard).foldl Builder.onMessage (Builder.empty.load asOfSeq rows')).rows symbol) := by
  obtain ⟨σ', es', hrun', hok, hsync, hprices⟩ := Shard.run_inSync config risk hnd hquiet
  obtain ⟨rfl, rfl⟩ := Prod.mk.inj (Except.ok.inj (hrun'.symm.trans hrun))
  let snap := Builder.empty.applyAll 1 ((eventsOf es').take k)
  have hsnap : snap.Ok := Builder.Ok.empty.applyAll 1 fun e he => hprices e (List.mem_of_mem_take he)
  have hseq : snap.lastSeq = UInt64.ofNat k := by
    have hlast := lastSeq_applyAll_succ Builder.empty ((eventsOf es').take k)
    rwa [List.length_take, Nat.min_eq_left hk, show Builder.empty.lastSeq = 0 from rfl, UInt64.zero_add,
      UInt64.zero_add] at hlast
  have hdecode := decodeSnapshot_encodeSnapshot snap.lastSeq (price_rows hsnap hrows) hcount
  refine ⟨snap.lastSeq, rows, ?_, by rw [hfirst, hseq], ?_⟩
  · rw [Netfeed.fetch_of_framed (Netfeed.framed_serve server call snap.lastSeq hcount) hgot, hdecode]
  · obtain ⟨t, ht⟩ := hfair.completes
    refine ⟨t, fun u htu symbol => ?_⟩
    have hdone := ht u htu
    have hlen : P.messages.length = ((eventsOf es').drop k).length := by rw [hmessages, List.length_map]
    have hnumbers := hdone.numbers
    have hdata := hdone.messages
    have hwrap := P.noWrap
    rw [hlen, hfirst] at hnumbers hwrap
    rw [List.take_length, hmessages] at hdata
    rw [onMessages_eq _ _ _ (fun e he => hprices e (List.mem_of_mem_drop he)) hwrap hnumbers hdata]
    obtain ⟨hlateOk, hlate⟩ := inSync_late hsync hprices hk hrows Builder.empty snap.lastSeq
    exact trueState_eq hlateOk hok hlate symbol

/-- Two orders come to rest. The subscriber has the first from the snapshot, and the second in a packet that is lost. -/
theorem lateJoiner_bestPrices_two : ∃ σ es asOfSeq rows',
    (Shard.new Shard.smallBooks none).run [Shard.addAB 1 66 5 100 77, Shard.addAB 2 83 3 103 78] = .ok (σ, es) ∧
      Netfeed.fetch (fun _ => 3) (Netfeed.serve (fun _ => 7) 2 1 [⟨symbolPad [65, 66], 1, .buy, 100, 5⟩]).1 =
        .ok (some (asOfSeq, rows')) ∧
      ∃ t, ∀ u, t ≤ u → ∀ symbol, trueState (σ.books symbol) = .ok (reconstructed
        ((delivered (lossyRun.net u).heard).foldl Builder.onMessage (Builder.empty.load asOfSeq rows')).rows symbol) := by
  have hcheck : ((Shard.new Shard.smallBooks none).run
      [Shard.addAB 1 66 5 100 77, Shard.addAB 2 83 3 103 78]).toOption.any (fun q =>
        !q.2.any (·.reports .reject) && decide (eventsOf q.2 =
          [{ type := .add, side := .buy, orderId := 1, symbol := symbolPad [65, 66], price := 100, qty := 5 }, soldAB])) =
        true := by
    decide +kernel
  obtain ⟨⟨σ, es⟩, hrun, hcheck⟩ := exists_of_toOption_any hcheck
  simp only [Bool.and_eq_true, Bool.not_eq_true', decide_eq_true_eq] at hcheck
  obtain ⟨hnone, hevents⟩ := hcheck
  have hrows : [(⟨symbolPad [65, 66], 1, .buy, 100, 5⟩ : SnapshotRow)].Perm
      (Builder.empty.applyAll 1 ((eventsOf es).take 1)).rows := by
    rw [hevents]
    decide +kernel
  have hgot : Netfeed.fetch (fun _ => 3) (Netfeed.serve (fun _ => 7) 2
      (Builder.empty.applyAll 1 ((eventsOf es).take 1)).lastSeq [⟨symbolPad [65, 66], 1, .buy, 100, 5⟩]).1 =
        .ok (some (1, [⟨symbolPad [65, 66], 1, .buy, 100, 5⟩])) := by
    rw [hevents]
    decide +kernel
  have hmessages : onePacket.messages = ((eventsOf es).drop 1).map encode := by
    rw [hevents]
    rfl
  obtain ⟨asOfSeq, rows', hsome, -, hbest⟩ := lateJoiner_bestPrices (by decide) (Shard.RejectsQuietly.of_none hrun hnone)
    hrun (by rw [hevents]; decide) hrows (by norm_num) hgot rfl hmessages fair_lossyRun
  refine ⟨σ, es, asOfSeq, rows', hrun, ?_, hbest⟩
  rw [← hsome]
  rw [hevents] at hgot
  exact hgot

end MatchingEngine
