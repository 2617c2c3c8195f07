import MatchingEngine.Feed.MoldUdp64Session
import MatchingEngine.Feed.Snapshot

/-!
# Joining late

A subscriber that joins a feed after `k` events loads a snapshot of a builder that has
seen these, starts a session at `k + 1`, and applies what the session delivers. The
theorem `lateJoiner_converges` says that it ends up showing the same rows as a builder
that has seen every event from the first, however the packets arrive.

Packets are the buffers that come off the wire; one that `decode_downstream` refuses is
dropped.
-/

namespace MatchingEngine.Snapshot

open Moldudp64 Mdfeed

/-- What a receiver makes of a buffer, unless it drops it. -/
def received (buf : Bytes) : Option Packet :=
  match decodeDownstream buf with
  | .ok (some (hdr, blocks)) => some ⟨hdr, blocks.map (·.view buf)⟩
  | _ => none

/-- The subscriber's message callback: a record it cannot decode is passed over. -/
def Builder.onMessage (b : Builder) (m : UInt64 × Bytes) : Builder :=
  match decode m.2 with
  | some e => b.apply m.1 e
  | none => b

/-- The packets carry the events, each encoded and under its number, counted from one. -/
def CarryEvents (events : List MDEvent) (packets : List Packet) : Prop :=
  ∀ n data, Carried packets n data → 1 ≤ n ∧ ∃ e, events[n - 1]? = some e ∧ data = encode e

variable {events : List MDEvent} {packets : List Packet} {b b' : Builder}

theorem CarryEvents.agree (h : CarryEvents events packets) : Agree packets := by
  intro n a b ha hb
  obtain ⟨-, e, he, rfl⟩ := h n a ha
  obtain ⟨-, e', he', rfl⟩ := h n b hb
  rw [Option.some.inj (he.symm.trans he')]

theorem CarryEvents.le (h : CarryEvents events packets) {n : ℕ} {data : Bytes} (hc : Carried packets n data) :
    n ≤ events.length := by
  obtain ⟨h₁, e, he, -⟩ := h n data hc
  have := (List.getElem?_eq_some_iff.mp he).1
  omega

/-- A block of a packet is carried. -/
theorem inBlocks_last (seq : ℕ) {blocks : List MessageBlockView} (h : blocks ≠ []) :
    ∃ data, InBlocks seq blocks (seq + blocks.length - 1) data := by
  induction blocks generalizing seq with
  | nil => exact absurd rfl h
  | cons b blocks ih =>
    by_cases hb : blocks = []
    · subst hb
      exact ⟨b.data, Or.inl ⟨rfl, rfl⟩⟩
    · obtain ⟨data, hd⟩ := ih (seq + 1) hb
      refine ⟨data, Or.inr ?_⟩
      rwa [List.length_cons, show seq + (blocks.length + 1) - 1 = seq + 1 + blocks.length - 1 by omega]

/-- Numbers of events do not wrap round. -/
theorem CarryEvents.noWrap (h : CarryEvents events packets) (hlen : events.length + 1 < 2 ^ 64) :
    ∀ p ∈ packets, p.NoWrap := by
  intro p hp hctl
  have hseq := p.hdr.sequenceNumber.toNat_lt
  by_cases hb : p.blocks = []
  · simpa [hb] using hseq
  · obtain ⟨data, hd⟩ := inBlocks_last p.hdr.sequenceNumber.toNat hb
    have := h.le ⟨p, hp, hctl, hd⟩
    omega

/-! ### What the subscriber applies -/

theorem applyAll_append (b : Builder) (seq : UInt64) (xs ys : List MDEvent) :
    b.applyAll seq (xs ++ ys) = (b.applyAll seq xs).applyAll (seq + UInt64.ofNat xs.length) ys := by
  induction xs generalizing b seq with
  | nil => simp [Builder.applyAll]
  | cons e xs ih =>
    rw [List.cons_append, Builder.applyAll, ih, Builder.applyAll, List.length_cons]
    rw [UInt64.ofNat_add, UInt64.add_comm (UInt64.ofNat xs.length), ← UInt64.add_assoc]
    rfl

/-- **What two builders show stays the same** under the same events. -/
theorem shown_applyAll (hs : b'.shown = b.shown) (seq : UInt64) (events : List MDEvent) :
    (b'.applyAll seq events).shown = (b.applyAll seq events).shown := by
  induction events generalizing b b' seq with
  | nil => exact hs
  | cons e events ih =>
    refine ih ?_ _
    rw [shown_apply, shown_apply, hs]

theorem lastSeq_applyAll (hs : b'.lastSeq = b.lastSeq) (seq : UInt64) (events : List MDEvent) :
    (b'.applyAll seq events).lastSeq = (b.applyAll seq events).lastSeq := by
  induction events generalizing b b' seq with
  | nil => exact hs
  | cons e events ih =>
    have h : (b'.apply seq e).lastSeq = (b.apply seq e).lastSeq := rfl
    exact ih h (seq + 1)

/-- Events numbered on from the last one are counted. -/
theorem lastSeq_applyAll_succ (b : Builder) (events : List MDEvent) :
    (b.applyAll (b.lastSeq + 1) events).lastSeq = b.lastSeq + UInt64.ofNat events.length := by
  induction events generalizing b with
  | nil => simp [Builder.applyAll]
  | cons e events ih =>
    rw [Builder.applyAll, List.length_cons, UInt64.ofNat_add, UInt64.add_comm (UInt64.ofNat events.length),
      ← UInt64.add_assoc]
    exact ih (b.apply (b.lastSeq + 1) e)

theorem Builder.Ok.applyAll (h : b.Ok) (seq : UInt64) (he : ∀ e ∈ events, InI64 e.price) :
    (b.applyAll seq events).Ok := by
  induction events generalizing b seq with
  | nil => exact h
  | cons e events ih => exact ih (h.apply seq (he e (by simp))) (seq + 1) fun q hq => he q (by simp [hq])

/-- Messages that are the encoded events, under consecutive numbers, are applied as the events. -/
theorem onMessages_eq (seq : UInt64) (ms : List (UInt64 × Bytes)) (es : List MDEvent)
    (he : ∀ e ∈ es, InI64 e.price) (hlen : seq.toNat + es.length < 2 ^ 64)
    (hnum : ms.map (fun m => m.1.toNat) = List.range' seq.toNat es.length)
    (hdata : ms.map Prod.snd = es.map encode) : ms.foldl Builder.onMessage b = b.applyAll seq es := by
  induction es generalizing b seq ms with
  | nil =>
    obtain rfl := List.map_eq_nil_iff.mp hdata
    rfl
  | cons e es ih =>
    cases ms with
    | nil => simp at hdata
    | cons m ms =>
      simp only [List.map_cons, List.cons.injEq, List.length_cons, List.range'_succ] at hnum hdata hlen
      have hseq : (seq + 1).toNat = seq.toNat + 1 := by
        rw [UInt64.toNat_add]
        exact Nat.mod_eq_of_lt (by show seq.toNat + 1 < 2 ^ 64; omega)
      have hm : Builder.onMessage b m = b.apply seq e := by
        rw [Builder.onMessage, hdata.1, decode_encode (he e (by simp)), UInt64.toNat_inj.mp hnum.1]
      rw [List.foldl_cons, hm, Builder.applyAll]
      refine ih _ ms (fun q hq => he q (by simp [hq])) (by omega) ?_ hdata.2
      rw [hseq]
      exact hnum.2

/-- What a session that starts at `k + 1` delivers, and how far it gets. -/
theorem delivered_eq (hcarry : CarryEvents events packets) (hlen : events.length + 1 < 2 ^ 64) {k : ℕ}
    (hk : k ≤ events.length) (session : SessionId) :
    let r := (Session.start session (UInt64.ofNat k + 1)).onPackets packets
    ∃ M, r.1.nextExpected.toNat = M + 1 ∧ k ≤ M ∧ M ≤ events.length ∧
      (delivered r.2).map (fun m => m.1.toNat) = List.range' (k + 1) (M - k) ∧
      (delivered r.2).map Prod.snd = ((events.take M).drop k).map encode := by
  intro r
  have hstart : (UInt64.ofNat k + 1).toNat = k + 1 := by
    rw [UInt64.toNat_add, UInt64.toNat_ofNat_of_lt' (by show k < 2 ^ 64; omega)]
    exact Nat.mod_eq_of_lt (by show k + 1 < 2 ^ 64; omega)
  obtain ⟨h, -⟩ := Session.keeps_start session (UInt64.ofNat k + 1) hcarry.agree (hcarry.noWrap hlen)
  rw [hstart] at h
  have hnext : k + 1 ≤ r.1.nextExpected.toNat := h.start_le
  obtain ⟨M, hM⟩ : ∃ M, r.1.nextExpected.toNat = M + 1 := ⟨r.1.nextExpected.toNat - 1, by omega⟩
  have hMle : M ≤ events.length := by
    by_cases hkM : k = M
    · omega
    · obtain ⟨data, hd⟩ := h.came_of_lt (n := M) (by omega) (Nat.lt_of_lt_of_eq (Nat.lt_succ_self M) hM.symm)
      exact hcarry.le hd
  have hnum : (delivered r.2).map (fun m => m.1.toNat) = List.range' (k + 1) (M - k) := by
    have := h.numbers
    rwa [List.map_map, show ((Session.start session (UInt64.ofNat k + 1)).onPackets packets).1.nextExpected.toNat
      = M + 1 from hM, show M + 1 - (k + 1) = M - k by omega] at this
  refine ⟨M, hM, by omega, hMle, hnum, List.ext_getElem? fun i => ?_⟩
  -- the message at place `i` has the number `k + 1 + i`
  have hlen' : (delivered r.2).length = M - k := by
    simpa using congrArg List.length hnum
  by_cases hi : i < M - k
  · have hm : (delivered r.2)[i].1.toNat = k + 1 + i := by
      have hget := congrArg (fun l => l[i]?) hnum
      simpa [hlen', hi] using hget
    have hcar := h.own ((delivered r.2)[i].1.toNat, (delivered r.2)[i].2)
      (List.mem_map.mpr ⟨(delivered r.2)[i], List.getElem_mem _, rfl⟩)
    obtain ⟨-, e, he, hde⟩ := hcarry _ _ hcar
    simp only [hm, show k + 1 + i - 1 = k + i by omega] at he hde
    have hlt : k + i < M := by omega
    simp [hlen', hi, List.getElem?_drop, hlt, he, hde]
  · rw [List.getElem?_eq_none (by simp [hlen']; omega), List.getElem?_eq_none (by simp; omega)]

/-- **A late joiner converges.** It loads what a builder that has seen the first `k` events would send, in
any order of the rows, starts a session at `k + 1`, and applies what it delivers; whatever packets come, and
however, its rows and its sequence number are those of a builder that has seen all events up to the next
expected number. -/
theorem lateJoiner_converges (events : List MDEvent) (hprice : ∀ e ∈ events, InI64 e.price)
    (hlen : events.length + 1 < 2 ^ 64) (k : ℕ) (hk : k ≤ events.length) (rows : List SnapshotRow)
    (hrows : rows.Perm (Builder.empty.applyAll 1 (events.take k)).rows) (hcount : rows.length < 2 ^ 32)
    (b₀ : Builder) (session : SessionId) (bufs : List Bytes)
    (hcarry : CarryEvents events (bufs.filterMap received)) :
    ∃ asOfSeq rows', decodeSnapshot (encodeSnapshot (UInt64.ofNat k) rows) = some (asOfSeq, rows') ∧
      let r := (Session.start session (UInt64.ofNat k + 1)).onPackets (bufs.filterMap received)
      let late := (delivered r.2).foldl Builder.onMessage (b₀.load asOfSeq rows')
      ∃ M, r.1.nextExpected.toNat = M + 1 ∧ M ≤ events.length ∧
        let full := Builder.empty.applyAll 1 (events.take M)
        (∀ row, row ∈ late.rows ↔ row ∈ full.rows) ∧ late.lastSeq = full.lastSeq := by
  have hearly : (Builder.empty.applyAll 1 (events.take k)).Ok :=
    Builder.Ok.empty.applyAll 1 fun e he => hprice e (List.mem_of_mem_take he)
  have hrowPrice : ∀ r ∈ rows, InI64 r.price := by
    intro r hr
    obtain ⟨o, hl, ho⟩ := Option.bind_eq_some_iff.mp ((mem_rows hearly r).mp (hrows.mem_iff.mp hr))
    obtain ⟨rfl, -⟩ := RestingOrder.shown_eq_some.mp ho
    exact hearly.prices _ _ _ hl
  refine ⟨UInt64.ofNat k, rows, decodeSnapshot_encodeSnapshot _ hrowPrice hcount, ?_⟩
  obtain ⟨M, hM, hkM, hMle, hnum, hdata⟩ := delivered_eq hcarry hlen hk session
  refine ⟨M, hM, hMle, ?_⟩
  have hkseq : (UInt64.ofNat k + 1).toNat = k + 1 := by
    rw [UInt64.toNat_add, UInt64.toNat_ofNat_of_lt' (by show k < 2 ^ 64; omega)]
    exact Nat.mod_eq_of_lt (by show k + 1 < 2 ^ 64; omega)
  have hmid : ∀ e ∈ (events.take M).drop k, InI64 e.price :=
    fun e he => hprice e (List.mem_of_mem_take (List.mem_of_mem_drop he))
  have hlenmid : ((events.take M).drop k).length = M - k := by
    rw [List.length_drop, List.length_take, Nat.min_eq_left hMle]
  -- both apply the events after the `k`-th to builders that show the same
  have hlate := onMessages_eq (b := b₀.load (UInt64.ofNat k) rows) (UInt64.ofNat k + 1) _ _ hmid
    (by rw [hlenmid, hkseq]; omega) (by rw [hlenmid, hkseq]; exact hnum) hdata
  have hfull : Builder.empty.applyAll 1 (events.take M) =
      (Builder.empty.applyAll 1 (events.take k)).applyAll (UInt64.ofNat k + 1) ((events.take M).drop k) := by
    have hsplit : events.take M = events.take k ++ (events.take M).drop k := by
      conv_lhs => rw [← List.take_append_drop k (events.take M), List.take_take, Nat.min_eq_left hkM]
    conv_lhs => rw [hsplit, applyAll_append, List.length_take, Nat.min_eq_left hk, UInt64.add_comm]
  have hshown := shown_load hearly b₀ (UInt64.ofNat k) fun r => hrows.mem_iff
  have hseq : (b₀.load (UInt64.ofNat k) rows).lastSeq = (Builder.empty.applyAll 1 (events.take k)).lastSeq := by
    have h₁ := lastSeq_applyAll_succ Builder.empty (events.take k)
    rw [List.length_take, Nat.min_eq_left hk] at h₁
    simpa [Builder.load, loadRows_lastSeq, Builder.empty] using h₁.symm
  have hloadOk : (b₀.load (UInt64.ofNat k) rows).Ok := by
    refine Builder.Ok.loadRows ⟨?_, ?_⟩ hrowPrice
    · exact Builder.Ok.empty.trimmed
    · exact Builder.Ok.empty.prices
  simp only [hlate, hfull]
  refine ⟨fun row => ?_, lastSeq_applyAll hseq _ _⟩
  rw [mem_rows (hloadOk.applyAll _ hmid), mem_rows (hearly.applyAll _ hmid), shown_applyAll hshown]

/-- Three events of one symbol: two orders rest, and a trade takes shares from the first. -/
def threeEvents : List MDEvent :=
  let symbol := symbolPad [65, 66]
  [{ type := .add, side := .buy, orderId := 7, symbol, price := 100, qty := 5 },
    { type := .add, side := .sell, orderId := 8, symbol, price := 101, qty := 3 },
    { type := .trade, side := .sell, orderId := 7, newOrderId := 9, symbol, price := 100, qty := 2 }]

/-- The last two events come first, then an end of session, and a buffer that is cut off. -/
def straddling : List Bytes :=
  let session := Vector.replicate kSessionLen 0
  [encodeDownstream session 2 (threeEvents.tail.map encode),
    session.toList ++ (putBe64 4 ++ putBe16 kEndOfSession),
    (encodeDownstream session 1 (threeEvents.map encode)).take 60]

/-- A subscriber that joins after the first event has seen them all. -/
theorem joiner_straddling : ∃ asOfSeq rows',
    decodeSnapshot (encodeSnapshot (UInt64.ofNat 1) [⟨symbolPad [65, 66], 7, .buy, 100, 5⟩]) = some (asOfSeq, rows') ∧
      let r := (Session.start (Vector.replicate kSessionLen 0) (UInt64.ofNat 1 + 1)).onPackets
        (straddling.filterMap received)
      let late := (delivered r.2).foldl Builder.onMessage (Builder.empty.load asOfSeq rows')
      ∃ M, r.1.nextExpected.toNat = M + 1 ∧ M ≤ threeEvents.length ∧
        let full := Builder.empty.applyAll 1 (threeEvents.take M)
        (∀ row, row ∈ late.rows ↔ row ∈ full.rows) ∧ late.lastSeq = full.lastSeq := by
  have hrec : straddling.filterMap received =
      [⟨⟨Vector.replicate kSessionLen 0, 2, 2⟩,
          [⟨encode threeEvents[1], by decide +kernel⟩, ⟨encode threeEvents[2], by decide +kernel⟩]⟩,
        ⟨⟨Vector.replicate kSessionLen 0, 4, kEndOfSession⟩, []⟩] := by
    decide +kernel
  have hcarry : CarryEvents threeEvents (straddling.filterMap received) := by
    rintro n data ⟨p, hp, hctl, hc⟩
    rw [hrec] at hp
    simp only [List.mem_cons, List.not_mem_nil, or_false] at hp
    obtain rfl | rfl := hp
    · obtain ⟨rfl, rfl⟩ | ⟨rfl, rfl⟩ | hc := hc
      · exact ⟨by decide, _, rfl, rfl⟩
      · exact ⟨by decide, _, rfl, rfl⟩
      · exact hc.elim
    · exact hc.elim
  have hrows : [(⟨symbolPad [65, 66], 7, .buy, 100, 5⟩ : SnapshotRow)].Perm
      (Builder.empty.applyAll 1 (threeEvents.take 1)).rows := by
    decide +kernel
  have hprice : ∀ e ∈ threeEvents, InI64 e.price := by decide +kernel
  have hlen : threeEvents.length + 1 < 2 ^ 64 := by norm_num [threeEvents]
  have hk : 1 ≤ threeEvents.length := by decide +kernel
  have h := lateJoiner_converges threeEvents hprice hlen 1 hk _ hrows (by norm_num) Builder.empty
    (Vector.replicate kSessionLen 0) straddling hcarry
  convert h

end MatchingEngine.Snapshot
