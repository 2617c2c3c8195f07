import MatchingEngine.Feed.SnapshotRecovery

/-!
# The market data feed, end to end

The scenario of `test_market_data_feed.cpp`: a sequencer handles messages, its events are published in
packets, some of which the sender holds back on purpose, and a subscriber that has nothing but the feed
puts together a book for every symbol. The subscriber stops when as many messages as there are events
have been delivered, and then the test looks at four things.

`withheld_requested` is about any publication: a packet that the sender never sends is delivered only if
it has been asked for, so that there are as many requests as such packets. `feed_passes` says that the
test passes whenever its loop has come to that end, whatever else the network has lost, repeated, delayed
or reordered.
-/

namespace MatchingEngine

open Foundation Itch Mdfeed Snapshot Moldudp64 OrderBookV2

/-! ### Packets that are held back -/

namespace Moldudp64

variable {P : Publication} {D : Finset ℕ} {net : Net}

/-- **The states of the exchange** in which the sender never sends the packets of `D`. -/
inductive Withheld (P : Publication) (D : Finset ℕ) : Net → Prop
  /-- Nothing has been sent. -/
  | new : Withheld P D (.new P)
  /-- One move more. -/
  | move {net m} : Withheld P D net → m.Possible P net → (∀ i ∈ D, m ≠ .publish (P.packet i)) →
      Withheld P D (net.move P m)

theorem Withheld.reachable (h : Withheld P D net) : Reachable P net := by
  induction h with
  | new => exact .new
  | move _ hm _ ih => exact ih.move hm

/-- The packets have different numbers, and so they are different. -/
theorem Publication.start_of_packet {i j : ℕ} (hi : i * P.perPacket < P.messages.length)
    (hj : j * P.perPacket < P.messages.length) (h : P.packet i = P.packet j) : P.start i = P.start j := by
  obtain ⟨p, hp, hbatch⟩ := received_packet hi
  obtain ⟨q, hq, hbatch'⟩ := received_packet hj
  obtain rfl : p = q := Option.some.inj (hp.symm.trans ((congrArg received h).trans hq))
  rw [← hbatch.number, ← hbatch'.number]

/-- **What holds of these states**: what the session was fed has been sent, the server has been sent the session's
requests, and a packet of `D` is on its way only if it has been asked for. -/
structure Answered (P : Publication) (D : Finset ℕ) (net : Net) : Prop where
  /-- What the session was fed. -/
  fed : ∃ ds : List Bytes, (∀ d ∈ ds, d ∈ net.downstream) ∧
    (Session.start P.session P.first).onPackets (ds.filterMap received) = (net.session, net.heard)
  /-- What the server was sent. -/
  upstream : net.upstream = (requests net.heard).map encodeRequest
  /-- The packets of `D`. -/
  withheld : ∀ i ∈ D, i * P.perPacket < P.messages.length → P.packet i ∈ net.downstream →
    ∃ q ∈ requests net.heard, q.sequenceNumber = P.start i

theorem answered_new (P : Publication) (D : Finset ℕ) : Answered P D (.new P) where
  fed := ⟨[], by simp, rfl⟩
  upstream := rfl
  withheld i _ _ h := by cases h

/-- A datagram comes to the subscriber. -/
theorem Answered.arrive (h : Answered P D net) {d : Bytes} (hd : d ∈ net.downstream) : Answered P D (net.arrive d) := by
  obtain ⟨ds, hsent, hrun⟩ := h.fed
  rw [Net.arrive]
  cases hp : received d with
  | none => exact h
  | some p =>
    refine ⟨⟨ds ++ [d], ?_, ?_⟩, ?_, fun i hi hlt hmem => ?_⟩
    · intro d' hd'
      rcases List.mem_append.mp hd' with hd' | hd'
      · exact hsent d' hd'
      · rwa [List.mem_singleton.mp hd']
    · rw [List.filterMap_append, List.filterMap_cons, hp, List.filterMap_nil, Session.onPackets_concat, hrun]
    · dsimp only
      rw [requests_append, List.map_append, h.upstream]
    · obtain ⟨q, hq, hseq⟩ := h.withheld i hi hlt hmem
      refine ⟨q, ?_, hseq⟩
      dsimp only
      rw [requests_append]
      exact List.mem_append_left _ hq

/-- **Whatever happens next** keeps it. -/
theorem Answered.move (h : Answered P D net) (hok : net.Ok P) {m : Move} (hm : m.Possible P net)
    (hnot : ∀ i ∈ D, m ≠ .publish (P.packet i)) : Answered P D (net.move P m) := by
  obtain ⟨ds, hsent, hrun⟩ := h.fed
  cases m with
  | publish d =>
    refine ⟨⟨ds, fun d' hd' => List.mem_append_left _ (hsent d' hd'), hrun⟩, h.upstream, fun i hi hlt hmem => ?_⟩
    rcases List.mem_append.mp hmem with hmem | hmem
    · exact h.withheld i hi hlt hmem
    · exact absurd (congrArg Move.publish (List.mem_singleton.mp hmem).symm) (hnot i hi)
  | arrive d => exact h.arrive hm
  | serve d =>
    refine ⟨⟨ds, fun d' hd' => List.mem_append_left _ (hsent d' hd'), hrun⟩, h.upstream, fun i hi hlt hmem => ?_⟩
    rcases List.mem_append.mp hmem with hmem | hmem
    · exact h.withheld i hi hlt hmem
    -- the packet is a reply, and so there is a request for it
    obtain ⟨j, count, hj, hd⟩ := hok.upstream d hm
    rw [hd, reply_start hj] at hmem
    have hstart := P.start_of_packet hlt hj (List.mem_singleton.mp hmem)
    have hmem' : d ∈ net.upstream := hm
    rw [h.upstream] at hmem'
    obtain ⟨q, hq, hd'⟩ := List.mem_map.mp hmem'
    refine ⟨q, hq, ?_⟩
    have hback := decodeRequest_encodeRequest q []
    have hback' := decodeRequest_encodeRequest ⟨P.session, P.start j, count⟩ []
    rw [hd', hd, hback'] at hback
    rw [hstart, ← Option.some.inj (Except.ok.inj hback)]

theorem Withheld.answered (h : Withheld P D net) : Answered P D net := by
  induction h with
  | new => exact answered_new P D
  | move hw hm hnot ih => exact ih.move hw.reachable.ok hm hnot

/-- What the session was fed has been published. -/
theorem published_of_sent (hok : net.Ok P) {ds : List Bytes} (hsent : ∀ d ∈ ds, d ∈ net.downstream) :
    ∀ p ∈ ds.filterMap received, IsPublished P p := by
  intro p hp
  obtain ⟨d, hd, hreceived⟩ := List.mem_filterMap.mp hp
  obtain ⟨p', hreceived', hpub⟩ := received_of_sends (hok.downstream d (hsent d hd))
  rwa [← Option.some.inj (hreceived'.symm.trans hreceived)]

/-- **A packet whose first message has been delivered** has been sent. -/
theorem Answered.packet_sent (h : Answered P D net) (hok : net.Ok P) {i : ℕ}
    (hi : i * P.perPacket < (delivered net.heard).length) : P.packet i ∈ net.downstream := by
  obtain ⟨ds, hsent, hrun⟩ := h.fed
  have hpub := published_of_sent hok hsent
  obtain ⟨hkeeps, -⟩ := Session.keeps_start P.session P.first (agree_of_published hpub) fun p hp => (hpub p hp).noWrap
  rw [hrun] at hkeeps
  obtain ⟨k, hk⟩ := hok.delivered
  have hnumber : (delivered net.heard)[i * P.perPacket].1.toNat = P.first.toNat + i * P.perPacket := by
    have hlength : (delivered net.heard).length = k := by simpa using congrArg List.length hk.numbers
    have hget := congrArg (fun l => l[i * P.perPacket]?) hk.numbers
    simpa [hi, hlength ▸ hi] using hget
  obtain ⟨p, hp, hcarries⟩ := hkeeps.own
    ((delivered net.heard)[i * P.perPacket].1.toNat, (delivered net.heard)[i * P.perPacket].2)
    (List.mem_map.mpr ⟨(delivered net.heard)[i * P.perPacket], List.getElem_mem _, rfl⟩)
  obtain ⟨d, hd, hreceived⟩ := List.mem_filterMap.mp hp
  dsimp only at hcarries
  rw [hnumber] at hcarries
  rcases hok.downstream d (hsent d hd) with hpacket | ⟨seq, count, hcontrol, -, rfl⟩
  · obtain ⟨j, hj, rfl⟩ := P.mem_packetsBySeq hpacket
    obtain ⟨p', hp', hbatch⟩ := received_packet hj
    obtain rfl : p' = p := Option.some.inj (hp'.symm.trans hreceived)
    obtain ⟨hge, hlt, -⟩ := hbatch.carries_iff.mp hcarries
    obtain rfl : i = j := by
      have hle := Nat.le_of_mul_le_mul_right (show j * P.perPacket ≤ i * P.perPacket by omega) P.perPacket_pos
      have hsucc := Nat.lt_of_mul_lt_mul_right (show i * P.perPacket < (j + 1) * P.perPacket by omega)
      omega
    exact hsent _ hd
  · rw [received_control P.session seq hcontrol] at hreceived
    obtain rfl := Option.some.inj hreceived
    exact absurd hcontrol hcarries.1

/-- There are as many requests as `gaps_detected` says. -/
theorem Answered.gapsDetected (h : Answered P D net) (hok : net.Ok P) :
    (requests net.heard).length = net.session.gapsDetected := by
  obtain ⟨ds, hsent, hrun⟩ := h.fed
  have hpub := published_of_sent hok hsent
  have htracks := (Session.tracks_start P.session P.first).onPackets (fun p hp => (hpub p hp).noWrap) fun p hp hdata => by
    rcases hpub p hp with ⟨hcontrol, -⟩ | ⟨i, hbatch⟩
    · exact absurd hcontrol hdata
    · intro hnil
      have hlength := P.length_batch i
      have hlt := hbatch.lt
      have hpos := P.perPacket_pos
      rw [← hbatch.blocks, hnil, List.map_nil, List.length_nil] at hlength
      omega
  rw [hrun, List.nil_append] at htracks
  exact htracks.count

/-- **A packet that is held back is asked for** before its messages are delivered; so there are at least as many
requests, and as many gaps detected, as packets that were held back and have been delivered. -/
theorem withheld_requested (h : Withheld P D net) (hD : ∀ i ∈ D, i * P.perPacket < P.messages.length) :
    (∀ i ∈ D, i * P.perPacket < (delivered net.heard).length →
        ∃ q ∈ requests net.heard, q.sequenceNumber = P.start i) ∧
      (D.filter fun i => i * P.perPacket < (delivered net.heard).length).card ≤ (requests net.heard).length ∧
      (requests net.heard).length = net.session.gapsDetected ∧
      net.upstream = (requests net.heard).map encodeRequest := by
  have hok := h.reachable.ok
  have hanswered := h.answered
  have hasked : ∀ i ∈ D, i * P.perPacket < (delivered net.heard).length →
      ∃ q ∈ requests net.heard, q.sequenceNumber = P.start i := fun i hi hlt =>
    hanswered.withheld i hi (hD i hi) (hanswered.packet_sent hok hlt)
  refine ⟨hasked, ?_, hanswered.gapsDetected hok, hanswered.upstream⟩
  -- different packets are asked for under different numbers
  have hinj : Set.InjOn P.start (D.filter fun i => i * P.perPacket < (delivered net.heard).length) := by
    intro i hi j hj hsame
    have hi' := hD i (Finset.mem_filter.mp hi).1
    have hj' := hD j (Finset.mem_filter.mp hj).1
    have hnat := congrArg UInt64.toNat hsame
    rw [P.toNat_start hi'.le, P.toNat_start hj'.le] at hnat
    exact Nat.eq_of_mul_eq_mul_right P.perPacket_pos (by omega)
  have hsub : (D.filter fun i => i * P.perPacket < (delivered net.heard).length).image P.start ⊆
      ((requests net.heard).map (·.sequenceNumber)).toFinset := by
    intro seq hseq
    obtain ⟨i, hi, rfl⟩ := Finset.mem_image.mp hseq
    obtain ⟨hmem, hlt⟩ := Finset.mem_filter.mp hi
    obtain ⟨q, hq, hstart⟩ := hasked i hmem hlt
    exact List.mem_toFinset.mpr (List.mem_map.mpr ⟨q, hq, hstart⟩)
  calc (D.filter fun i => i * P.perPacket < (delivered net.heard).length).card
      = ((D.filter fun i => i * P.perPacket < (delivered net.heard).length).image P.start).card :=
        (Finset.card_image_of_injOn hinj).symm
    _ ≤ ((requests net.heard).map (·.sequenceNumber)).toFinset.card := Finset.card_le_card hsub
    _ ≤ ((requests net.heard).map (·.sequenceNumber)).length := List.toFinset_card_le _
    _ = (requests net.heard).length := List.length_map _

end Moldudp64

/-! ### The subscriber's books -/

/-- `shadow_books`. A `ShadowOrder` has the fields of a `RestingOrder`. -/
abbrev ShadowBooks := AList fun _ : Bytes => Orders

namespace ShadowBooks

/-- The message callback. Its `switch` is that of the snapshot builder. -/
def onMessage (books : ShadowBooks) (m : UInt64 × Bytes) : ShadowBooks :=
  match decode m.2 with
  | none => books
  | some e =>
    let book := (books.lookup (symbolStr e.symbol)).getD ∅
    books.insert (symbolStr e.symbol) (Builder.applyTo book e)

/-- The orders of a symbol; there are none if it is not found. -/
def orders (books : ShadowBooks) (symbol : Bytes) : List (Sigma fun _ : OrderId => RestingOrder) :=
  ((books.lookup symbol).getD ∅).entries

/-- The body of the loop over the orders of a symbol. -/
def see (st : TrueState) (o : RestingOrder) : TrueState :=
  if o.qty = 0 then st
  else
    match o.side with
    | .buy => if !st.hasBid || st.bestBid < o.price then { st with hasBid := true, bestBid := o.price } else st
    | .sell => if !st.hasAsk || o.price < st.bestAsk then { st with hasAsk := true, bestAsk := o.price } else st

/-- What the loop finds in these orders. -/
def best (orders : List (Sigma fun _ : OrderId => RestingOrder)) : TrueState :=
  orders.foldl (fun st o => see st o.2) {}

end ShadowBooks

/-- The subscriber's books are those of a snapshot builder that is given the same messages. -/
theorem books_onMessages (b : Builder) (ms : List (UInt64 × Bytes)) :
    (ms.foldl Builder.onMessage b).books = ms.foldl ShadowBooks.onMessage b.books := by
  induction ms generalizing b with
  | nil => rfl
  | cons m ms ih =>
    rw [List.foldl_cons, List.foldl_cons, ih, Builder.onMessage, ShadowBooks.onMessage]
    cases decode m.2 <;> rfl

/-- The rows of a symbol's orders. -/
def rowsOf (symbol : Bytes) (orders : List (Sigma fun _ : OrderId => RestingOrder)) : List SnapshotRow :=
  (orders.filter fun o => o.2.qty ≠ 0).map fun o => ⟨symbolPad symbol, o.1, o.2.side, o.2.price, o.2.qty⟩

/-- Looking at the orders of a symbol is looking at its rows. -/
theorem best_eq_foldl (symbol : Bytes) (orders : List (Sigma fun _ : OrderId => RestingOrder)) :
    ShadowBooks.best orders = (rowsOf symbol orders).foldl TrueState.see {} := by
  rw [ShadowBooks.best, rowsOf, List.foldl_map, List.foldl_filter]
  congr 1
  funext st o
  rw [ShadowBooks.see]
  by_cases hqty : o.2.qty = 0
  · simp [hqty]
  · simp only [hqty, if_false, ne_eq, not_false_eq_true, decide_true, if_true]
    rfl

/-- Rows of one symbol are seen by that symbol only. -/
theorem foldl_see_eq {rows : List SnapshotRow} {symbol : Bytes} (h : ∀ r ∈ rows, symbolStr r.symbol = symbol) :
    rows.foldl TrueState.see {} = reconstructed rows symbol := by
  induction rows using List.reverseRecOn with
  | nil => rfl
  | append_singleton rows r ih =>
    have hr : symbolStr r.symbol = symbol := h r (by simp)
    rw [reconstructed, List.foldl_append, List.foldl_append, List.foldl_cons, List.foldl_nil, List.foldl_cons,
      List.foldl_nil, hr, Function.update_self, ih fun q hq => h q (List.mem_append_left _ hq)]
    rfl

/-- Where the prices are the same, so is what the loop finds. -/
theorem reconstructed_congr {rows rows' : List SnapshotRow} {symbol : Bytes}
    (h : ∀ side, rowPrices rows symbol side = rowPrices rows' symbol side) :
    reconstructed rows symbol = reconstructed rows' symbol := by
  obtain ⟨hblank, hbest⟩ := reconstructed_spec rows symbol
  obtain ⟨hblank', hbest'⟩ := reconstructed_spec rows' symbol
  exact TrueState.ext_best hblank hblank' fun side => BestOf.unique (hbest side) (h side ▸ hbest' side)

/-- A row has the symbol of the book that it is made from. -/
theorem symbolStr_of_mem_rowsOf {b : Builder} (h : b.Ok) {symbol : Bytes} {book : Orders}
    (hbook : b.books.lookup symbol = some book) {orders : List (Sigma fun _ : OrderId => RestingOrder)} {r : SnapshotRow}
    (hr : r ∈ rowsOf symbol orders) : symbolStr r.symbol = symbol := by
  obtain ⟨o, -, rfl⟩ := List.mem_map.mp hr
  exact h.trimmed symbol (AList.lookup_isSome.mp (by rw [hbook]; rfl))

/-- The rows of a symbol are those of its orders. -/
theorem mem_rowsOf {b : Builder} (h : b.Ok) {symbol : Bytes} {orders : List (Sigma fun _ : OrderId => RestingOrder)}
    (horders : orders.Perm (ShadowBooks.orders b.books symbol)) (r : SnapshotRow) :
    r ∈ rowsOf symbol orders ↔ r ∈ b.rows ∧ symbolStr r.symbol = symbol := by
  have hperm : r ∈ rowsOf symbol orders ↔ r ∈ rowsOf symbol (ShadowBooks.orders b.books symbol) :=
    ((horders.filter _).map _).mem_iff
  rw [hperm]
  constructor
  · intro hr
    cases hbook : b.books.lookup symbol with
    | none =>
      rw [ShadowBooks.orders, hbook] at hr
      cases hr
    | some book =>
      have hsymbol := symbolStr_of_mem_rowsOf h hbook hr
      rw [ShadowBooks.orders, hbook] at hr
      exact ⟨List.mem_flatMap.mpr ⟨⟨symbol, book⟩, AList.mem_lookup_iff.mp hbook, hr⟩, hsymbol⟩
  · rintro ⟨hr, rfl⟩
    obtain ⟨⟨symbol, book⟩, hs, hr⟩ := List.mem_flatMap.mp hr
    have hbook : b.books.lookup symbol = some book := AList.mem_lookup_iff.mpr hs
    rw [symbolStr_of_mem_rowsOf h hbook hr, ShadowBooks.orders, hbook]
    exact hr

/-- **What the subscriber finds** in the books is what a builder's rows give, in whatever order the orders come. -/
theorem best_orders {b : Builder} (h : b.Ok) {symbol : Bytes} {orders : List (Sigma fun _ : OrderId => RestingOrder)}
    (horders : orders.Perm (ShadowBooks.orders b.books symbol)) :
    ShadowBooks.best orders = reconstructed b.rows symbol := by
  rw [best_eq_foldl symbol, foldl_see_eq fun r hr => ((mem_rowsOf h horders r).mp hr).2]
  refine reconstructed_congr fun side => Set.ext fun p => ⟨?_, ?_⟩
  · rintro ⟨r, hr, hrest⟩
    exact ⟨r, ((mem_rowsOf h horders r).mp hr).1, hrest⟩
  · rintro ⟨r, hr, hsymbol, hrest⟩
    exact ⟨r, (mem_rowsOf h horders r).mpr ⟨hr, hsymbol⟩, hsymbol, hrest⟩

/-! ### The test -/

variable {config : Bytes → BookConfig} {risk : Option RiskEngine.Config} {ms : List Message} {σ : Shard} {es : List Emitted}

/-- **The test passes**: when as many messages have been delivered as there are events, there have been at least as
many requests, and gaps detected, as packets that were held back, and the best prices that the subscriber finds
are those of every book. -/
theorem feed_passes (hnd : (newRefs ms).Nodup) (hquiet : Shard.RejectsQuietly config risk ms)
    (hrun : (Shard.new config risk).run ms = .ok (σ, es)) {P : Publication} (hfirst : P.first = 1)
    (hmessages : P.messages = (eventsOf es).map encode) {D : Finset ℕ} (hD : ∀ i ∈ D, i * P.perPacket < P.messages.length)
    {net : Net} (hnet : Withheld P D net) (hdone : (delivered net.heard).length = (eventsOf es).length) :
    D.card ≤ (requests net.heard).length ∧ D.card ≤ net.session.gapsDetected ∧
      ∀ symbol orders, orders.Perm (((delivered net.heard).foldl ShadowBooks.onMessage ∅).orders symbol) →
        trueState (σ.books symbol) = .ok (ShadowBooks.best orders) := by
  obtain ⟨σ', es', hrun', hok, hsync, hprices⟩ := Shard.run_inSync config risk hnd hquiet
  obtain ⟨rfl, rfl⟩ := Prod.mk.inj (Except.ok.inj (hrun'.symm.trans hrun))
  have hlen : P.messages.length = (eventsOf es').length := by rw [hmessages, List.length_map]
  obtain ⟨-, hcard, hgaps, -⟩ := withheld_requested hnet hD
  rw [Finset.filter_true_of_mem fun i hi => by rw [hdone, ← hlen]; exact hD i hi] at hcard
  refine ⟨hcard, hgaps ▸ hcard, fun symbol orders horders => ?_⟩
  -- what has been delivered is every event
  obtain ⟨k, hk⟩ := hnet.reachable.ok.delivered
  have hcount : k = (eventsOf es').length := by simpa [hdone] using (congrArg List.length hk.numbers).symm
  have hnumbers := hk.numbers
  have hdata := hk.messages
  have hwrap := P.noWrap
  rw [hcount, hfirst] at hnumbers
  rw [hlen, hfirst] at hwrap
  rw [hcount, ← hlen, List.take_length, hmessages] at hdata
  have hbuilt := onMessages_eq (b := Builder.empty) 1 (delivered net.heard) (eventsOf es') hprices hwrap hnumbers hdata
  have hbooks := books_onMessages Builder.empty (delivered net.heard)
  rw [hbuilt] at hbooks
  have hbuilder : (Builder.empty.applyAll 1 (eventsOf es')).Ok := Builder.Ok.empty.applyAll 1 hprices
  rw [best_orders hbuilder (by rw [hbooks]; exact horders)]
  exact trueState_eq hbuilder hok hsync symbol

/-- Two orders come to rest, and each has a packet of its own. -/
def twoPackets : Publication :=
  { onePacket with
    first := 1
    messages := [{ type := .add, side := .buy, orderId := 1, symbol := symbolPad [65, 66], price := 100, qty := 5 },
      soldAB].map encode
    fits := by decide +kernel
    noWrap := by decide }

/-- The first packet is held back; the second is answered with a request, and the request with the first. -/
def heldBack : ℕ → Move
  | 0 => .publish (twoPackets.packet 1)
  | 1 => .arrive (twoPackets.packet 1)
  | 2 => .serve (encodeRequest ⟨twoPackets.session, 1, 1⟩)
  | _ => .arrive (twoPackets.packet 0)

/-- The state after so many of these moves. -/
def afterHeldBack : ℕ → Net := statesOf (Net.move twoPackets) (.new twoPackets) heldBack

theorem withheld_afterHeldBack : Withheld twoPackets {0} (afterHeldBack 4) := by
  have hother : twoPackets.packet 1 ≠ twoPackets.packet 0 := by decide +kernel
  have hpublish : Withheld twoPackets {0} (afterHeldBack 1) := by
    refine Withheld.new.move (m := heldBack 0) (Or.inl (twoPackets.packet_mem (by decide))) fun i hi h => ?_
    rw [Finset.mem_singleton.mp hi] at h
    exact hother (Move.publish.inj h)
  have harrive : Withheld twoPackets {0} (afterHeldBack 2) :=
    hpublish.move (m := heldBack 1) (show _ ∈ (afterHeldBack 1).downstream by decide +kernel) fun i _ => by simp [heldBack]
  have hserve : Withheld twoPackets {0} (afterHeldBack 3) :=
    harrive.move (m := heldBack 2) (show _ ∈ (afterHeldBack 2).upstream by decide +kernel) fun i _ => by simp [heldBack]
  exact hserve.move (m := heldBack 3) (show _ ∈ (afterHeldBack 3).downstream by decide +kernel) fun i _ => by
    simp [heldBack]

/-- There is one request, and the subscriber finds both prices. -/
theorem feed_passes_afterHeldBack : ∃ σ es,
    (Shard.new Shard.smallBooks none).run [Shard.addAB 1 66 5 100 77, Shard.addAB 2 83 3 103 78] = .ok (σ, es) ∧
      1 ≤ (requests (afterHeldBack 4).heard).length ∧ 1 ≤ (afterHeldBack 4).session.gapsDetected ∧
        ∀ symbol orders,
          orders.Perm (((delivered (afterHeldBack 4).heard).foldl ShadowBooks.onMessage ∅).orders symbol) →
            trueState (σ.books symbol) = .ok (ShadowBooks.best orders) := by
  have hcheck : ((Shard.new Shard.smallBooks none).run
      [Shard.addAB 1 66 5 100 77, Shard.addAB 2 83 3 103 78]).toOption.any (fun q =>
        !q.2.any (·.reports .reject) && decide ((eventsOf q.2).map encode = twoPackets.messages)) = true := by
    decide +kernel
  obtain ⟨⟨σ, es⟩, hrun, hcheck⟩ := exists_of_toOption_any hcheck
  simp only [Bool.and_eq_true, Bool.not_eq_true', decide_eq_true_eq] at hcheck
  obtain ⟨hnone, hmessages⟩ := hcheck
  have hlength : (eventsOf es).length = 2 := by
    rw [← List.length_map (f := encode), hmessages]
    rfl
  have hcount : (delivered (afterHeldBack 4).heard).length = 2 := by decide +kernel
  exact ⟨σ, es, hrun, feed_passes (by decide) (Shard.RejectsQuietly.of_none hrun hnone) hrun rfl hmessages.symm
    (by decide) withheld_afterHeldBack (by rw [hcount, hlength])⟩

end MatchingEngine
