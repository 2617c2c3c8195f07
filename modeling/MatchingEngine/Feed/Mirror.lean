import MatchingEngine.Feed.SequencerRuns
import MatchingEngine.Feed.Snapshot

/-!
# The feed mirrors the books

A subscriber that applies the events of a message to a builder which shows what rests in the
books shows what rests there afterwards, if the message is not rejected (`run_mirrored`).
An event has on what is shown the effect that the message has on the book: `Shows.cancel`,
`Shows.reduce`, `Shows.taken` and `Shows.join` are these effects, one by one.
-/

namespace MatchingEngine

open Foundation Itch Mdfeed Snapshot Function OrderBookV2

/-! ### What is shown of one book -/

/-- What is shown is what rests, with its side, price and shares. -/
def Shows (b : Book) (d : OrderId → Option RestingOrder) : Prop :=
  ∀ side o, o ∈ b.side side ↔ ∃ r, d o.id = some r ∧ r.side = side ∧ r.price = o.price ∧ r.qty.toNat = o.qty

variable {b : Book} {d : OrderId → Option RestingOrder} {req : OrderRequest}

theorem side_reduce (b : Book) (id : OrderId) (delta : Quantity) (side : Side) :
    (b.reduce id delta).2.side side = reduceBy id delta.toNat (b.side side) := by
  cases side <;> rfl

/-- **An order leaves.** -/
theorem Shows.cancel (h : Shows b d) (id : OrderId) : Shows (b.cancel id).2 (update d id none) := by
  intro side o
  rw [mem_side_cancel]
  by_cases hid : o.id = id
  · rw [hid, update_self]
    simp
  · rw [update_of_ne hid, h side o]
    simp [hid]

/-- **Shares leave an order.** -/
theorem Shows.reduce (h : Shows b d) (id : OrderId) (delta : Quantity) :
    Shows (b.reduce id delta).2 (update d id ((d id).bind (·.minus delta))) := by
  intro side o
  rw [side_reduce, mem_reduceBy]
  by_cases hid : o.id = id
  · rw [hid, update_self]
    constructor
    · rintro (⟨hne, -⟩ | ⟨o', ho', hid', hlt, rfl⟩)
      · exact absurd rfl hne
      · obtain ⟨r, hr, hside, hprice, hqty⟩ := (h side o').mp ho'
        have hle : ¬ r.qty ≤ delta := by
          rw [UInt64.le_iff_toNat_le]
          omega
        refine ⟨{ r with qty := r.qty - delta }, ?_, hside, hprice, ?_⟩
        · rw [← hid', hr, Option.bind_some, RestingOrder.minus, if_neg hle]
        · show (r.qty - delta).toNat = o'.qty - delta.toNat
          rw [UInt64.toNat_sub_of_le _ _ (UInt64.le_of_lt (UInt64.not_le.mp hle)), hqty]
    · rintro ⟨r', hr', hside, hprice, hqty⟩
      obtain ⟨r, hr, hminus⟩ := Option.bind_eq_some_iff.mp hr'
      rw [RestingOrder.minus] at hminus
      split_ifs at hminus with hle
      rw [← Option.some.inj hminus] at hside hprice hqty
      have hsub := UInt64.toNat_sub_of_le r.qty delta (UInt64.le_of_lt (UInt64.not_le.mp hle))
      rw [UInt64.le_iff_toNat_le] at hle
      have hqty' : r.qty.toNat - delta.toNat = o.qty := hsub.symm.trans hqty
      refine Or.inr ⟨⟨id, o.price, r.qty.toNat⟩, (h side _).mpr ⟨r, hr, hside, hprice, rfl⟩, rfl, ?_, ?_⟩
      · show delta.toNat < r.qty.toNat
        omega
      · rw [Order.mk.injEq] at *
        exact ⟨hid, rfl, hqty'.symm⟩
  · rw [update_of_ne hid, ← h side o]
    constructor
    · rintro (⟨-, ho⟩ | ⟨o', -, hid', -, rfl⟩)
      · exact ho
      · exact absurd hid' hid
    · exact fun ho => Or.inl ⟨hid, ho⟩

/-- **An order comes to rest** under a number that does not. -/
theorem Shows.join (h : Shows b d) (hid : req.id ∉ b.ids) {resting : Quantity} :
    Shows (b.join req resting.toNat) (update d req.id (some ⟨req.side, req.price, resting⟩)) := by
  intro side o
  rw [mem_side_join]
  by_cases ho : o.id = req.id
  · rw [ho, update_self]
    have hnot : o ∉ b.side side := fun hm => hid (ho ▸ List.mem_map_of_mem (mem_side_orders hm))
    constructor
    · rintro (hm | ⟨rfl, rfl⟩)
      · exact absurd hm hnot
      · exact ⟨_, rfl, rfl, rfl, rfl⟩
    · rintro ⟨r, hr, hside, hprice, hqty⟩
      rw [← Option.some.inj hr] at hside hprice hqty
      refine Or.inr ⟨hside.symm, ?_⟩
      cases o
      simp only at ho hprice hqty
      rw [OrderRequest.resting, ho, ← hprice, ← hqty]
  · rw [update_of_ne ho, ← h side o]
    constructor
    · rintro (hm | ⟨-, rfl⟩)
      · exact hm
      · exact absurd rfl ho
    · exact Or.inl

/-- What a trade takes from its maker. -/
def takeTrade (d : OrderId → Option RestingOrder) (t : Trade) : OrderId → Option RestingOrder :=
  update d t.makerId ((d t.makerId).bind (·.minus t.qty))

/-- A trade takes shares from its maker. -/
def Book.takeTrade (b : Book) (t : Trade) : Book := (b.reduce t.makerId t.qty).2

theorem Shows.takeTrades (h : Shows b d) (ts : List Trade) : Shows (ts.foldl Book.takeTrade b) (ts.foldl takeTrade d) := by
  induction ts generalizing b d with
  | nil => exact h
  | cons t ts ih => exact ih (h.reduce t.makerId t.qty)

/-- Fills of one side are taken from that side. -/
theorem foldl_takeTrade (side : Side) {id : OrderId} (fs : List (Fill ℤ OrderId))
    (hqty : ∀ f ∈ fs, (UInt64.ofNat f.qty).toNat = f.qty)
    (hother : ∀ f ∈ fs, f.maker ∉ (b.side side.opposite).map (·.id)) :
    (fs.map (toTrade id)).foldl Book.takeTrade b =
      b.withSide side (fs.foldl (fun os f => reduceBy f.maker f.qty os) (b.side side)) := by
  induction fs generalizing b with
  | nil => exact (withSide_side b side).symm
  | cons f fs ih =>
    have hone : b.takeTrade (toTrade id f) = b.withSide side (reduceBy f.maker f.qty (b.side side)) := by
      have hq := hqty f List.mem_cons_self
      have hmaker := hother f List.mem_cons_self
      cases side with
      | buy =>
        have hkeep : reduceBy f.maker f.qty b.asks = b.asks := reduceBy_of_not_mem hmaker
        simp only [Book.takeTrade, Book.reduce, toTrade, hq, hkeep]
        rfl
      | sell =>
        have hkeep : reduceBy f.maker f.qty b.bids = b.bids := reduceBy_of_not_mem hmaker
        simp only [Book.takeTrade, Book.reduce, toTrade, hq, hkeep]
        rfl
    rw [List.map_cons, List.foldl_cons, hone, ih (fun g hg => hqty g (List.mem_cons_of_mem f hg)), withSide_withSide,
      side_withSide, List.foldl_cons]
    intro g hg
    rw [side_withSide_eq, if_neg (by cases side <;> decide)]
    exact hother g (List.mem_cons_of_mem f hg)

/-- **What an order takes** is what its trades take. -/
theorem taken_eq_foldl (hnd : b.ids.Nodup) (req : OrderRequest) :
    b.taken req = (b.trades req).foldl Book.takeTrade b := by
  have hsplit : ∀ side : Side, ((b.side side).map (·.id)).Nodup ∧
      ∀ o ∈ b.side side, o.id ∉ (b.side side.opposite).map (·.id) := by
    rw [Book.ids, Book.orders, List.map_append, List.nodup_append] at hnd
    obtain ⟨hbids, hasks, happart⟩ := hnd
    intro side
    cases side with
    | buy => exact ⟨hbids, fun o ho hm => happart _ (List.mem_map_of_mem ho) _ hm rfl⟩
    | sell => exact ⟨hasks, fun o ho hm => happart _ hm _ (List.mem_map_of_mem ho) rfl⟩
  rw [Book.taken, Book.trades, foldl_takeTrade req.side.opposite _ fun f hf => toNat_fill_qty hf]
  · rw [Book.take, fill_rest_eq_foldl _ _ (hsplit req.side.opposite).1]
  · intro f hf
    obtain ⟨o, ho, hid, -⟩ := order_of_mem_fills hf
    rw [← hid]
    exact (hsplit req.side.opposite).2 o ho

theorem Shows.taken (h : Shows b d) (hnd : b.ids.Nodup) (req : OrderRequest) :
    Shows (b.taken req) ((b.trades req).foldl MatchingEngine.takeTrade d) := by
  rw [taken_eq_foldl hnd]
  exact h.takeTrades _

/-- Trades leave alone what is shown under a number that they do not have. -/
theorem foldl_takeTrade_update {id : OrderId} {r : Option RestingOrder} {ts : List Trade} (h : ∀ t ∈ ts, t.makerId ≠ id) :
    ts.foldl MatchingEngine.takeTrade (update d id r) = update (ts.foldl MatchingEngine.takeTrade d) id r := by
  induction ts generalizing d with
  | nil => rfl
  | cons t ts ih =>
    have hne := h t List.mem_cons_self
    rw [List.foldl_cons, List.foldl_cons, ← ih fun u hu => h u (List.mem_cons_of_mem t hu), MatchingEngine.takeTrade,
      update_of_ne hne, update_comm hne.symm]
    rfl

/-- The trades of an order take the other side, and what is left of it rests. -/
theorem Shows.afterLimit (h : Shows b d) (hnd : b.ids.Nodup) (hid : req.id ∉ b.ids) {resting : Quantity}
    (hleft : resting.toNat = (b.take req).left) :
    Shows (b.afterLimit req) ((b.trades req).foldl MatchingEngine.takeTrade
      (if 0 < resting then update d req.id (some ⟨req.side, req.price, resting⟩) else d)) := by
  have htaken := h.taken hnd req
  have hmaker : ∀ t ∈ b.trades req, t.makerId ≠ req.id := by
    rintro t ht he
    obtain ⟨f, hf, rfl⟩ := List.mem_map.mp ht
    obtain ⟨o, ho, ho', -⟩ := order_of_mem_fills hf
    have he : f.maker = req.id := he
    exact hid (he ▸ ho' ▸ List.mem_map_of_mem (mem_side_orders ho))
  by_cases hpos : 0 < resting
  · rw [if_pos hpos, foldl_takeTrade_update hmaker, Book.afterLimit, if_pos (by rw [← hleft]; exact toNat_pos.mpr hpos),
      ← hleft]
    exact htaken.join fun hm => hid (ids_taken_subset b req hm)
  · rw [if_neg hpos, Book.afterLimit, if_neg (by rw [← hleft]; exact fun hl => hpos (toNat_pos.mp hl))]
    exact htaken

/-! ### Events -/

/-- The event, if it is one. -/
def Emitted.event? : Emitted → Option MDEvent
  | .event e => some e
  | .report _ => none

/-- The events among what is emitted. -/
def eventsOf (es : List Emitted) : List MDEvent := es.filterMap Emitted.event?

/-- What events do, one after the other, to what is shown of their symbol. -/
def effects (es : List MDEvent) (d : OrderId → Option RestingOrder) : OrderId → Option RestingOrder :=
  es.foldl (fun d e => effect e d) d

/-- **A builder is in sync** with the books of a sequencer: for every symbol it shows what rests. -/
def InSync (bld : Builder) (σ : Shard) : Prop := ∀ symbol, Shows (σ.book symbol) (bld.shown symbol)

theorem InSync.new (config : Bytes → BookConfig) (risk : Option RiskEngine.Config) :
    InSync Builder.empty (Shard.new config risk) := by
  intro symbol side o
  constructor
  · intro ho
    cases side <;> cases ho
  · rintro ⟨r, hr, -⟩
    cases hr

/-- Events of one symbol change what is shown of that symbol. -/
theorem shown_applyAll_symbol {symbol : Bytes} {events : List MDEvent} (h : ∀ e ∈ events, symbolStr e.symbol = symbol)
    (bld : Builder) (seq : UInt64) :
    (bld.applyAll seq events).shown = update bld.shown symbol (effects events (bld.shown symbol)) := by
  induction events generalizing bld seq with
  | nil => exact (update_eq_self symbol bld.shown).symm
  | cons e events ih =>
    rw [Builder.applyAll, ih (fun x hx => h x (List.mem_cons_of_mem e hx)), shown_apply, h e List.mem_cons_self,
      update_idem, update_self]
    rfl

/-- **One message**: it changes one book, and its events have the same effect. -/
theorem InSync.message {bld : Builder} {σ σ' : Shard} (h : InSync bld σ) (symbol : Bytes) (b' : Book)
    (hbook : ∀ symbol', σ'.book symbol' = if symbol' = symbol then b' else σ.book symbol') {es : List Emitted}
    (hsymbol : ∀ e ∈ eventsOf es, symbolStr e.symbol = symbol) (hshows : Shows b' (effects (eventsOf es) (bld.shown symbol)))
    (seq : UInt64) : InSync (bld.applyAll seq (eventsOf es)) σ' := by
  intro symbol'
  rw [shown_applyAll_symbol hsymbol, hbook]
  by_cases hs : symbol' = symbol
  · rw [if_pos hs, hs, update_self]
    exact hshows
  · rw [if_neg hs, update_of_ne hs]
    exact h symbol'

/-- A message that changes no book and emits no event. -/
theorem InSync.idle {bld : Builder} {σ σ' : Shard} (h : InSync bld σ) (hbook : σ'.book = σ.book) {es : List Emitted}
    (hes : eventsOf es = []) (seq : UInt64) : InSync (bld.applyAll seq (eventsOf es)) σ' := by
  intro symbol
  rw [hes, hbook]
  exact h symbol

/-- The message ends in a rejection. -/
def Handled.Rejected (r : Handled) : Prop := ∃ rep, .report rep ∈ r.emitted ∧ rep.type = .reject

namespace Shard

variable {σ : Shard} {past : List Message} {used : List OrderId} {ref : OrderId} {info : OrderInfo} {m : Message}
  {r : Handled} {bld : Builder}

theorem mem_eventsOf {e : MDEvent} {es : List Emitted} : e ∈ eventsOf es ↔ .event e ∈ es := by
  rw [eventsOf, List.mem_filterMap]
  constructor
  · rintro ⟨x, hx, he⟩
    cases x with
    | event e' => rwa [← Option.some.inj he]
    | report rep => cases he
  · exact fun he => ⟨_, he, rfl⟩

theorem eventsOf_append (es es' : List Emitted) : eventsOf (es ++ es') = eventsOf es ++ eventsOf es' :=
  List.filterMap_append

/-- The trade events take what the trades take. -/
theorem effects_tradeOutputs (req : OrderRequest) (info : OrderInfo) (timestampNs : UInt64) (ts : List Trade)
    (d : OrderId → Option RestingOrder) :
    effects (eventsOf (tradeOutputs req info timestampNs ts)) d = ts.foldl takeTrade d := by
  induction ts generalizing d with
  | nil => rfl
  | cons t ts ih => exact ih (takeTrade d t)

theorem symbol_tradeOutputs {req : OrderRequest} {timestampNs : UInt64} {ts : List Trade} {e : MDEvent}
    (he : e ∈ eventsOf (tradeOutputs req info timestampNs ts)) : e.symbol = symbolPad info.symbol := by
  obtain ⟨t, -, he⟩ := List.mem_flatMap.mp (mem_eventsOf.mp he)
  simp only [List.mem_cons, List.not_mem_nil, or_false, reduceCtorEq, false_or, Emitted.event.injEq] at he
  rw [he]

/-- The trades of a list take this much from their taker, if a word can hold it. -/
theorem toNat_takerFilled {ts : List Trade} (hid : ∀ t ∈ ts, t.takerId = req.id) (hlt : tradedQty ts < 2 ^ 64) :
    (takerFilled req ts).toNat = tradedQty ts := by
  have hsum : ∀ (ts : List Trade) (acc : Quantity), (∀ t ∈ ts, t.takerId = req.id) → acc.toNat + tradedQty ts < 2 ^ 64 →
      (ts.foldl (fun filled t => if t.takerId = req.id then filled + t.qty else filled) acc).toNat =
        acc.toNat + tradedQty ts := by
    intro ts
    induction ts with
    | nil => exact fun acc _ _ => rfl
    | cons t ts ih =>
      intro acc hid hlt
      have hcons : tradedQty (t :: ts) = t.qty.toNat + tradedQty ts := by
        rw [tradedQty, tradedQty, List.map_cons, List.sum_cons]
      have hadd : (acc + t.qty).toNat = acc.toNat + t.qty.toNat := by
        rw [UInt64.toNat_add]
        exact Nat.mod_eq_of_lt (by omega)
      rw [List.foldl_cons, if_pos (hid t List.mem_cons_self),
        ih _ (fun u hu => hid u (List.mem_cons_of_mem t hu)) (by omega), hadd, hcons]
      omega
  have := hsum ts 0 hid (by simpa using hlt)
  rw [takerFilled, this]
  simp

/-- **The quantity that is published** is what is left to rest. -/
theorem toNat_restingQty {s : OrderBookV2} {a : AddResult} (ha : LimitAdded s req a) :
    (restingQty req a.trades).toNat = (s.book.take req).left := by
  have hsum := tradedQty_trades s.book req
  have hlt := req.qty.toNat_lt
  have hfilled : (takerFilled req a.trades).toNat = tradedQty (s.book.trades req) := by
    rw [toNat_takerFilled ha.takerId (by rw [ha.trades]; omega), ha.trades]
  rw [restingQty, UInt64.toNat_sub_of_le _ _ (by rw [UInt64.le_iff_toNat_le]; omega), hfilled]
  omega

/-! ### The messages -/

theorem effects_append (es es' : List MDEvent) (d : OrderId → Option RestingOrder) :
    effects (es ++ es') d = effects es' (effects es d) := List.foldl_append

theorem book_submitted (σ : Shard) (req : OrderRequest) (info : OrderInfo) (a : AddResult) (counted : Stats → Stats)
    (symbol : Bytes) :
    (σ.submitted req info a counted).book symbol = if symbol = info.symbol then a.book.book else σ.book symbol :=
  book_afterAdd (σ.setOrder req.id info) info.symbol symbol a

/-- What is shown of an order with shares is the order. -/
theorem shown_of_pos {o : RestingOrder} (h : 0 < o.qty) : o.shown = some o := by
  apply if_neg
  intro h0
  rw [h0] at h
  exact absurd h (by decide)

theorem Adds.inSync (hok : σ.Ok used) (hid : req.id ∉ used) (hside : req.side = info.side)
    (htrim : symbolStr (symbolPad info.symbol) = info.symbol) {timestampNs : UInt64}
    (hr : Adds σ info req timestampNs r) (h : InSync bld σ) (hnot : ¬ r.Rejected) (seq : UInt64) :
    InSync (bld.applyAll seq (eventsOf r.emitted)) r.shard := by
  cases hr with
  | declined v => exact absurd ⟨_, List.mem_singleton.mpr rfl, rfl⟩ hnot
  | threw v a what => exact absurd ⟨_, List.mem_singleton.mpr rfl, rfl⟩ hnot
  | escaped v a _ _ _ ha hthrown => exact h.idle (funext (hok.book_escaped ha hthrown)) rfl seq
  | returned v a add _ _ _ ha hthrown hadd =>
    have hnot : req.id ∉ (σ.book info.symbol).ids := hok.not_mem_ids hid info.symbol
    have hevents : eventsOf (ackReport req info.symbol :: (if 0 < restingQty req a.trades then [.event add] else []) ++
        tradeOutputs req info timestampNs a.trades) =
        (if 0 < restingQty req a.trades then [add] else []) ++ eventsOf (tradeOutputs req info timestampNs a.trades) := by
      rw [eventsOf_append]
      congr 1
      split_ifs <;> rfl
    refine h.message info.symbol a.book.book (book_submitted σ req info a _) ?_ ?_ seq
    · intro e he
      rw [hevents, List.mem_append] at he
      obtain he | he := he
      · split_ifs at he
        · rw [List.mem_singleton.mp he, hadd]
          exact htrim
        · cases he
      · rw [symbol_tradeOutputs he]
        exact htrim
    · have hafter := (h info.symbol).afterLimit (hok.sound info.symbol).ids_nodup hnot (toNat_restingQty ha)
      have htrades : a.trades = (σ.book info.symbol).trades req := ha.trades
      rw [← htrades] at hafter
      have hadded : effects (if 0 < restingQty req a.trades then [add] else []) (bld.shown info.symbol) =
          if 0 < restingQty req a.trades then
            update (bld.shown info.symbol) req.id (some ⟨req.side, req.price, restingQty req a.trades⟩)
          else bld.shown info.symbol := by
        split_ifs with hpos
        · rw [hadd]
          show update (bld.shown info.symbol) req.id (RestingOrder.shown ⟨info.side, req.price, restingQty req a.trades⟩) = _
          rw [shown_of_pos hpos, hside]
        · rfl
      rw [hevents, effects_append, effects_tradeOutputs, ha.returned hthrown, hadded]
      exact hafter

theorem TakesShares.inSync (hok : σ.Ok used) {shares : UInt32} {counted : Stats → Stats}
    {onRisk : OrderInfo → RiskEngine → RiskEngine} {event : OrderInfo → MDEvent}
    (hr : TakesShares σ ref shares counted onRisk event r) (hevent : ∀ info,
      ((event info).type = .cancel ∨ (event info).type = .trade) ∧ (event info).orderId = ref ∧
        (event info).symbol = symbolPad info.symbol ∧ (event info).qty = shares.toUInt64)
    (h : InSync bld σ) (seq : UInt64) : InSync (bld.applyAll seq (eventsOf r.emitted)) r.shard := by
  cases hr with
  | unknown => exact h.idle rfl rfl seq
  | known info s hi _ hb =>
    obtain ⟨htype, hid, hsymbol, hqty⟩ := hevent info
    refine h.message info.symbol s.book (book_setBook σ info.symbol · s) ?_ ?_ seq
    · intro e he
      rw [Emitted.event.inj (List.mem_singleton.mp (mem_eventsOf.mp he)), hsymbol]
      exact hok.trimmed _ _ hi
    · have hreduce := (h info.symbol).reduce ref shares.toUInt64
      have heffect : effect (event info) (bld.shown info.symbol) =
          update (bld.shown info.symbol) ref ((bld.shown info.symbol ref).bind (·.minus shares.toUInt64)) := by
        rw [effect]
        obtain htype | htype := htype
        · rw [htype, hid, hqty]
        · rw [htype, hid, hqty]
      rw [hb]
      show Shows _ (effect (event info) (bld.shown info.symbol))
      rw [heffect]
      exact hreduce

/-- What is shown after the old order has left. -/
theorem shows_withdrawn {s : OrderBookV2} (h : InSync bld σ) (hw : Withdraws σ ref info s) :
    Shows s.book (update (bld.shown info.symbol) ref none) := by
  rw [hw.book]
  exact (h info.symbol).cancel ref

theorem Deletes.inSync (hok : σ.Ok used) {m : OrderDelete} (hr : Deletes σ m r) (h : InSync bld σ) (seq : UInt64) :
    InSync (bld.applyAll seq (eventsOf r.emitted)) r.shard := by
  cases hr with
  | unknown => exact h.idle rfl rfl seq
  | known info s hw =>
    refine h.message info.symbol s.book (book_withdrawn σ m.orderRefNumber info s) ?_ ?_ seq
    · intro e he
      rw [Emitted.event.inj (List.mem_singleton.mp (mem_eventsOf.mp he))]
      exact hok.trimmed _ _ hw.known
    · exact shows_withdrawn h hw

theorem Replaces.inSync (hok : σ.Ok used) {m : OrderReplace} (hid : m.newOrderRefNumber ∉ used) (hr : Replaces σ m r)
    (h : InSync bld σ) (hnot : ¬ r.Rejected) (seq : UInt64) :
    InSync (bld.applyAll seq (eventsOf r.emitted)) r.shard := by
  cases hr with
  | unknown => exact h.idle rfl rfl seq
  | declined info s v => exact absurd ⟨_, List.mem_singleton.mpr rfl, rfl⟩ hnot
  | threw info s v a what => exact absurd ⟨_, List.mem_singleton.mpr rfl, rfl⟩ hnot
  | escaped info s v a hw _ _ _ ha hthrown => exact h.idle (funext (hok.book_escaped_withdrawn hw ha hthrown)) rfl seq
  | returned info s v a hw _ _ _ ha hthrown =>
    have htrim := hok.trimmed _ _ hw.known
    have hevent : symbolStr (replaceEvent m info (restingQty (replaceRequest m info) a.trades)).symbol = info.symbol := by
      rw [replaceEvent]
      split_ifs <;> exact htrim
    refine h.message info.symbol a.book.book (fun symbol => ?_) ?_ ?_ seq
    · rw [book_submitted, book_withdrawn]
      split_ifs <;> rfl
    · intro e he
      obtain he | he := List.mem_cons.mp (show e ∈ _ :: eventsOf _ from he)
      · rw [he]
        exact hevent
      · rw [symbol_tradeOutputs he]
        exact htrim
    · have hnew : (replaceRequest m info).id ∉ s.book.ids := by
        have := (hok.withdrawn hw).not_mem_ids hid info.symbol
        rwa [book_withdrawn, if_pos rfl] at this
      have hafter := (shows_withdrawn h hw).afterLimit hw.sound.ids_nodup hnew (toNat_restingQty ha)
      rw [← ha.trades] at hafter
      have hreplaced : effect (replaceEvent m info (restingQty (replaceRequest m info) a.trades)) (bld.shown info.symbol) =
          if 0 < restingQty (replaceRequest m info) a.trades then
            update (update (bld.shown info.symbol) m.originalOrderRefNumber none) (replaceRequest m info).id
              (some ⟨(replaceRequest m info).side, (replaceRequest m info).price,
                restingQty (replaceRequest m info) a.trades⟩)
          else update (bld.shown info.symbol) m.originalOrderRefNumber none := by
        rw [replaceEvent]
        split_ifs with hpos
        · show update (update (bld.shown info.symbol) m.originalOrderRefNumber none) m.newOrderRefNumber
            (RestingOrder.shown ⟨info.side, m.price.toNat, _⟩) = _
          rw [shown_of_pos hpos]
          rfl
        · rfl
      rw [ha.returned hthrown]
      show Shows _ (effects (eventsOf (tradeOutputs _ _ _ _)) (effect (replaceEvent m info _) _))
      rw [effects_tradeOutputs, hreplaced]
      exact hafter

/-- **A message that is not rejected** changes what rests and what is shown alike. -/
theorem Handles.inSync (hr : Handles σ m r) (hok : σ.Ok used) (hfresh : ∀ ref ∈ m.newRef, ref ∉ used)
    (h : InSync bld σ) (hnot : ¬ r.Rejected) (seq : UInt64) :
    InSync (bld.applyAll seq (eventsOf r.emitted)) r.shard := by
  cases hr with
  | addOrderNoMPID hr => exact hr.inSync hok (hfresh _ rfl) rfl (infoOf_trimmed _ _) h hnot seq
  | addOrderMPID hr => exact hr.inSync hok (hfresh _ rfl) rfl (infoOf_trimmed _ _) h hnot seq
  | orderCancel hr => exact hr.inSync hok (fun _ => ⟨Or.inl rfl, rfl, rfl, rfl⟩) h seq
  | orderExecuted hr => exact hr.inSync hok (fun _ => ⟨Or.inr rfl, rfl, rfl, rfl⟩) h seq
  | nonPrintable => exact h.idle rfl rfl seq
  | orderExecutedWithPrice _ hr => exact hr.inSync hok (fun _ => ⟨Or.inr rfl, rfl, rfl, rfl⟩) h seq
  | orderDelete hr => exact hr.inSync hok h seq
  | orderReplace hr => exact hr.inSync hok (hfresh _ rfl) h hnot seq
  | other => exact h.idle rfl rfl seq

/-- **The feed mirrors the books**: in every state that a run leads to, and for every message that is
not rejected, a builder in sync is in sync again once it has applied the events of the message. -/
theorem run_mirrored (config : Bytes → BookConfig) (risk : Option RiskEngine.Config) {past : List Message} {m : Message}
    (hnd : (newRefs (past ++ [m])).Nodup) :
    ∃ σ es r, (new config risk).run past = .ok (σ, es) ∧ σ.onMessage m = .ok r ∧
      ∀ bld, InSync bld σ → ¬ r.Rejected → ∀ seq, InSync (bld.applyAll seq (eventsOf r.emitted)) r.shard := by
  obtain ⟨σ, es, hrun, hok, -⟩ :=
    run_induction (J := fun _ _ _ => True) config risk trivial (fun _ _ _ _ _ _ _ _ _ _ => trivial) past (nodup_of_snoc hnd)
  obtain ⟨r, hr, hh⟩ := hok.onMessage m (fresh_of_nodup hnd)
  exact ⟨σ, es, r, hrun, hr, fun bld hsync hnot seq => hh.inSync hok (fresh_of_nodup hnd) hsync hnot seq⟩

/-- A replacement that trades in part, after an order and its maker. -/
theorem run_mirrored_replaced :
    ∃ σ es r, (new smallBooks none).run [addAB 1 66 5 100 77, addAB 2 83 3 103 78] = .ok (σ, es) ∧
      σ.onMessage (replaceBy 1 3 4 103) = .ok r ∧
        ∀ bld, InSync bld σ → ¬ r.Rejected → ∀ seq, InSync (bld.applyAll seq (eventsOf r.emitted)) r.shard :=
  run_mirrored smallBooks none (by decide)

end Shard

end MatchingEngine
