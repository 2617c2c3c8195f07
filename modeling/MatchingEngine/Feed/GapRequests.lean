import MatchingEngine.Feed.MoldUdp64Framing
import MatchingEngine.Feed.MoldUdp64Session

/-!
# Gap requests of a MoldUDP64 session

A session asks for what is missing before a packet, once, when the packet comes: from the
next expected number on, and no more than fits the 16 bits of the request. It never asks
again by itself. A hole that a partial retransmission leaves is covered nonetheless, by the
request of an earlier packet that was further ahead; `Session.requests_cover_holes` says
that there is no other kind of hole.
-/

namespace MatchingEngine.Moldudp64

open Foundation

/-! ### What packets announce and what is asked for -/

/-- The packet is what `decode_downstream` makes of a buffer that it accepts. -/
def Packet.Received (p : Packet) : Prop :=
  ∃ (buf : Bytes) (ranges : List BlockRange),
    decodeDownstream buf = .ok (some (p.hdr, ranges)) ∧ p.blocks = ranges.map (BlockRange.view buf)

/-- The first number that a packet does not tell of: the one after its last message, or the number
in a heartbeat or at the end of the session. -/
def Packet.upTo (p : Packet) : ℕ :=
  if p.hdr.IsControl then p.hdr.sequenceNumber.toNat else p.hdr.sequenceNumber.toNat + p.blocks.length

/-- What the packets announce, each with what the session expects when it comes. -/
def Session.announcements (s : Session) : List Packet → List Announcement
  | [] => []
  | p :: packets => ⟨s.nextExpected.toNat, p.upTo⟩ :: (s.onPacket p).1.announcements packets

/-- The requests among the callbacks. -/
def requests (cs : List Callback) : List RequestPacket :=
  cs.filterMap fun
    | .message _ _ _ => none
    | .request q => some q

@[simp] theorem requests_nil : requests [] = [] := rfl

@[simp] theorem requests_append (cs cs' : List Callback) : requests (cs ++ cs') = requests cs ++ requests cs' :=
  List.filterMap_append

/-- A request asks for this number. -/
def RequestPacket.AsksFor (q : RequestPacket) (n : ℕ) : Prop :=
  q.sequenceNumber.toNat ≤ n ∧ n < q.sequenceNumber.toNat + q.requestedMessageCount.toNat

/-- The number is in the range of a request made so far. -/
def Asked (cs : List Callback) (n : ℕ) : Prop := ∃ q ∈ requests cs, q.AsksFor n

/-- A message that comes before a request has a number below the request's. -/
def Callback.Below : Callback → Callback → Prop
  | .message seq _ _, .request q => seq.toNat < q.sequenceNumber.toNat
  | _, _ => True

/-- A data packet that is received has a message. -/
theorem Packet.Received.blocks_ne_nil {p : Packet} (h : p.Received) (hctl : ¬ p.hdr.IsControl) : p.blocks ≠ [] := by
  obtain ⟨buf, ranges, hdecode, hblocks⟩ := h
  have hcount : ranges.length = p.hdr.messageCount.toNat := by
    rw [decodeDownstream] at hdecode
    split_ifs at hdecode
    · cases hdecode
    obtain ⟨session, -, hdecode⟩ := bind_eq_ok.mp hdecode
    obtain ⟨seq, -, hdecode⟩ := bind_eq_ok.mp hdecode
    obtain ⟨count, -, hdecode⟩ := bind_eq_ok.mp hdecode
    dsimp only at hdecode
    split_ifs at hdecode with hcontrol
    · obtain ⟨hhdr, -⟩ := Prod.mk.inj (Option.some.inj (Except.ok.inj hdecode))
      exact absurd (hhdr ▸ hcontrol) hctl
    obtain ⟨found, hfound, hdecode⟩ := bind_eq_ok.mp hdecode
    obtain ⟨ranges', rfl, hpair⟩ := Option.map_eq_some_iff.mp (Except.ok.inj hdecode)
    obtain ⟨hhdr, rfl⟩ := Prod.mk.inj hpair
    obtain ⟨r, hr, -, hwalked⟩ := decodeBlocks_spec buf (getBe16 count).toNat kDownstreamHeaderLen
    rw [hr] at hfound
    rw [(hwalked ranges' (Except.ok.inj hfound)).length, ← hhdr]
  have hpos : p.hdr.messageCount.toNat ≠ 0 := fun h => hctl (.inl (UInt16.toNat_inj.mp h))
  rw [hblocks]
  refine List.ne_nil_of_length_pos ?_
  rw [List.length_map, hcount]
  exact Nat.pos_of_ne_zero hpos

namespace Session

variable {s : Session} {announcements : List Announcement} {cs : List Callback} {n : ℕ}

/-! ### What is held -/

/-- A message with this number is held. -/
def Held (s : Session) (n : ℕ) : Prop := ∃ data, s.Holds n data

theorem held_iff (s : Session) (n : ℕ) : s.Held n ↔ ∃ seq : UInt64, seq.toNat = n ∧ seq ∈ s.pending := by
  constructor
  · rintro ⟨data, seq, hseq, hl⟩
    exact ⟨seq, hseq, AList.lookup_isSome.mp (by rw [hl]; rfl)⟩
  · rintro ⟨seq, hseq, hmem⟩
    obtain ⟨data, hl⟩ := Option.isSome_iff_exists.mp (AList.lookup_isSome.mpr hmem)
    exact ⟨data, seq, hseq, hl⟩

theorem held_emplace (s : Session) (seq : UInt64) (data : Bytes) (n : ℕ) :
    ({ s with pending := emplace s.pending seq data } : Session).Held n ↔ s.Held n ∨ n = seq.toNat := by
  have hmem : ∀ k, k ∈ emplace s.pending seq data ↔ k ∈ s.pending ∨ k = seq := by
    intro k
    unfold emplace
    split_ifs with h
    · exact ⟨Or.inl, fun hk => hk.elim id fun hk => hk ▸ h⟩
    · rw [AList.mem_insert, or_comm]
  rw [held_iff, held_iff]
  constructor
  · rintro ⟨k, rfl, hk⟩
    exact ((hmem k).mp hk).imp (fun hk => ⟨k, rfl, hk⟩) (congrArg UInt64.toNat)
  · rintro (⟨k, hk, hin⟩ | rfl)
    · exact ⟨k, hk, (hmem k).mpr (.inl hin)⟩
    · exact ⟨seq, rfl, (hmem seq).mpr (.inr rfl)⟩

/-- What is held after the blocks of a packet: they too, but for those below the next expected number. -/
theorem held_hold {seq : UInt64} {blocks : List MessageBlockView} (hw : seq.toNat + blocks.length < 2 ^ 64) :
    (s.hold seq blocks).Held n ↔
      s.Held n ∨ (s.nextExpected.toNat ≤ n ∧ seq.toNat ≤ n ∧ n < seq.toNat + blocks.length) := by
  induction blocks generalizing s seq with
  | nil =>
    have hnone : ¬ (s.nextExpected.toNat ≤ n ∧ seq.toNat ≤ n ∧ n < seq.toNat + 0) := by omega
    exact (or_iff_left hnone).symm
  | cons b blocks ih =>
    rw [List.length_cons] at hw ⊢
    have hseq : (seq + 1).toNat = seq.toNat + 1 := by
      rw [UInt64.toNat_add]
      exact Nat.mod_eq_of_lt (by show seq.toNat + 1 < 2 ^ 64; omega)
    unfold Session.hold
    split_ifs with hlate
    · have hlt := UInt64.lt_iff_toNat_lt.mp hlate
      rw [ih (by omega), hseq]
      refine or_congr_right ?_
      omega
    · have hge := UInt64.le_iff_toNat_le.mp (UInt64.not_lt.mp hlate)
      rw [ih (by omega), held_emplace, hseq]
      show (s.Held n ∨ n = seq.toNat) ∨ s.nextExpected.toNat ≤ n ∧ _ ↔ _
      rw [or_assoc]
      refine or_congr_right ?_
      omega

/-! ### What each move keeps -/

/-- **The holes of a session** that has been told of these numbers and has made these callbacks. -/
structure Tracks (s : Session) (announcements : List Announcement) (cs : List Callback) : Prop where
  /-- No number that is held is the last there is. -/
  small : ∀ n, s.Held n → n + 1 < 2 ^ 64
  holes : HolesAsked 65535 announcements s.nextExpected.toNat s.Held (Asked cs)
  /-- What has been delivered is below the next expected number. -/
  below : ∀ seq data len, Callback.message seq data len ∈ cs → seq.toNat < s.nextExpected.toNat
  /-- A request starts above what was delivered before it. -/
  starts : cs.Pairwise Callback.Below
  count : (requests cs).length = s.gapsDetected

theorem tracks_start (session : SessionId) (startSeq : UInt64) : (start session startSeq).Tracks [] [] where
  small := by
    rintro n ⟨data, seq, -, hl⟩
    simp [start] at hl
  holes := fun _ ha => absurd ha List.not_mem_nil
  below := fun _ _ _ hm => absurd hm List.not_mem_nil
  starts := .nil
  count := rfl

/-- Taking in the blocks of a packet. -/
theorem Tracks.hold (h : s.Tracks announcements cs) {seq : UInt64} {blocks : List MessageBlockView}
    (hw : seq.toNat + blocks.length < 2 ^ 64) : (s.hold seq blocks).Tracks announcements cs where
  small := by
    intro n hn
    rcases (held_hold hw).mp hn with hn | hn
    · exact h.small n hn
    · omega
  holes := by
    rw [hold_nextExpected]
    exact h.holes.mono le_rfl (fun n _ hn => (held_hold hw).mpr (.inl hn)) fun _ => id
  below := by
    rw [hold_nextExpected]
    exact h.below
  starts := h.starts
  count := by
    rw [h.count]
    clear h hw
    induction blocks generalizing s seq with
    | nil => rfl
    | cons b blocks ih =>
      unfold Session.hold
      split_ifs
      · exact ih
      · exact ih (s := { s with pending := emplace s.pending seq b.data })

/-- Asking for what is missing before a number that is ahead. -/
theorem Tracks.maybeRequestGap (h : s.Tracks announcements cs) (observedSeq : UInt64) :
    (s.maybeRequestGap observedSeq).1.Tracks announcements (cs ++ (s.maybeRequestGap observedSeq).2) ∧
      ∀ n, s.nextExpected.toNat ≤ n → n < observedSeq.toNat →
        Asked (cs ++ (s.maybeRequestGap observedSeq).2) n ∨ s.nextExpected.toNat + 65535 ≤ n := by
  unfold Session.maybeRequestGap
  split_ifs with hahead
  · have hlt := UInt64.lt_iff_toNat_lt.mp hahead
    have hcount : ((min (observedSeq - s.nextExpected) 0xFFFF).toUInt16).toNat =
        min (observedSeq.toNat - s.nextExpected.toNat) 65535 := by
      have hmin : (min (observedSeq - s.nextExpected) 0xFFFF).toNat =
          min (observedSeq.toNat - s.nextExpected.toNat) 65535 := by
        rw [UInt64.toNat_min, UInt64.toNat_sub_of_le _ _ (UInt64.le_iff_toNat_le.mpr hlt.le)]
        rfl
      rw [UInt64.toNat_toUInt16, hmin]
      omega
    let q : RequestPacket :=
      { session := s.session
        sequenceNumber := s.nextExpected
        requestedMessageCount := (min (observedSeq - s.nextExpected) 0xFFFF).toUInt16 }
    refine ⟨⟨h.small, ?_, ?_, ?_, ?_⟩, ?_⟩
    · refine h.holes.mono le_rfl (fun n _ hn => hn) ?_
      rintro n ⟨q, hq, hn⟩
      exact ⟨q, by rw [requests_append]; exact List.mem_append_left _ hq, hn⟩
    · intro seq data len hm
      rcases List.mem_append.mp hm with hm | hm
      · exact h.below seq data len hm
      · exact nomatch List.mem_singleton.mp hm
    · rw [List.pairwise_append]
      refine ⟨h.starts, List.pairwise_singleton _ _, ?_⟩
      intro c hc c' hc'
      rw [List.mem_singleton.mp hc']
      cases c with
      | message seq data len => exact h.below seq data len hc
      | request q => exact trivial
    · rw [requests_append, List.length_append, h.count]
      rfl
    · intro n hn hlt'
      rcases Nat.lt_or_ge n (s.nextExpected.toNat + 65535) with hnear | hfar
      · refine .inl ⟨q, ?_, hn, ?_⟩
        · rw [requests_append]
          exact List.mem_append_right _ List.mem_cons_self
        · show n < s.nextExpected.toNat + UInt16.toNat _
          rw [hcount]
          omega
      · exact .inr hfar
  · have hge := UInt64.le_iff_toNat_le.mp (UInt64.not_lt.mp hahead)
    rw [List.append_nil]
    exact ⟨h, fun n hn hlt => absurd (hn.trans_lt hlt) (not_lt.mpr hge)⟩

/-- Handing one message on. -/
theorem Tracks.afterDelivery (h : s.Tracks announcements cs) {data : Bytes} (len : UInt16)
    (hl : s.pending.lookup s.nextExpected = some data) :
    s.afterDelivery.Tracks announcements (cs ++ [.message s.nextExpected data len]) := by
  have hnext : (s.nextExpected + 1).toNat = s.nextExpected.toNat + 1 := by
    rw [UInt64.toNat_add]
    exact Nat.mod_eq_of_lt (h.small _ ⟨data, holds_iff.mpr hl⟩)
  have hheld : ∀ n, s.afterDelivery.Held n ↔ s.Held n ∧ n ≠ s.nextExpected.toNat := by
    intro n
    have herase : ∀ b, s.afterDelivery.Holds n b ↔ s.Holds n b ∧ n ≠ s.nextExpected.toNat :=
      fun b => holds_erase s.nextExpected n b (s.nextExpected + 1)
    simp only [Held, herase, exists_and_right]
  have hrequests : requests (cs ++ [.message s.nextExpected data len]) = requests cs := by
    rw [requests_append]
    exact List.append_nil _
  constructor
  · exact fun n hn => h.small n ((hheld n).mp hn).1
  · refine h.holes.mono ?_ ?_ ?_
    · show s.nextExpected.toNat ≤ (s.nextExpected + 1).toNat
      omega
    · intro n hn hin
      refine (hheld n).mpr ⟨hin, ?_⟩
      have : (s.nextExpected + 1).toNat ≤ n := hn
      omega
    · intro n hasked
      unfold Asked
      rwa [hrequests]
  · intro seq data' len' hm
    show seq.toNat < (s.nextExpected + 1).toNat
    rw [hnext]
    rcases List.mem_append.mp hm with hm | hm
    · exact (h.below seq data' len' hm).trans (Nat.lt_succ_self _)
    · obtain ⟨rfl, -, -⟩ := Callback.message.inj (List.mem_singleton.mp hm)
      exact Nat.lt_succ_self _
  · rw [List.pairwise_append]
    refine ⟨h.starts, List.pairwise_singleton _ _, ?_⟩
    intro c _ c' hc'
    rw [List.mem_singleton.mp hc']
    cases c <;> exact trivial
  · rw [hrequests]
    exact h.count

theorem Tracks.deliverLoop {fuel : ℕ} (h : s.Tracks announcements cs) :
    (deliverLoop fuel s).1.Tracks announcements (cs ++ (deliverLoop fuel s).2) := by
  induction fuel generalizing s cs with
  | zero => simpa [Session.deliverLoop] using h
  | succ fuel ih =>
    cases hl : s.pending.lookup s.nextExpected with
    | none =>
      rw [deliverLoop_none fuel hl]
      simpa using h
    | some data =>
      rw [deliverLoop_some fuel hl, List.append_cons]
      exact ih (h.afterDelivery _ hl)

/-- **A packet**, which announces what it says. -/
theorem Tracks.onPacket (h : s.Tracks announcements cs) {p : Packet} (hw : p.NoWrap)
    (hblocks : ¬ p.hdr.IsControl → p.blocks ≠ []) :
    (s.onPacket p).1.Tracks (announcements ++ [⟨s.nextExpected.toNat, p.upTo⟩]) (cs ++ (s.onPacket p).2) := by
  unfold Session.onPacket
  by_cases hctl : p.hdr.IsControl
  · have hupTo : p.upTo = p.hdr.sequenceNumber.toNat := if_pos hctl
    obtain ⟨htracks, hasked⟩ := h.maybeRequestGap p.hdr.sequenceNumber
    obtain ⟨hnext, -, -⟩ := s.maybeRequestGap_eq p.hdr.sequenceNumber
    have hannounced := htracks.holes.announce ⟨s.nextExpected.toNat, p.upTo⟩ fun n hn hlt =>
      .inr (hasked n (hnext ▸ hn) (hupTo ▸ hlt))
    rw [if_pos hctl]
    dsimp only
    split_ifs
    · exact ⟨htracks.small, hannounced, htracks.below, htracks.starts, htracks.count⟩
    · exact ⟨htracks.small, hannounced, htracks.below, htracks.starts, htracks.count⟩
  · have hupTo : p.upTo = p.hdr.sequenceNumber.toNat + p.blocks.length := if_neg hctl
    have hempty : p.blocks.isEmpty = false := by
      rw [List.isEmpty_eq_false_iff]
      exact hblocks hctl
    obtain ⟨htracks, hasked⟩ := (h.hold (hw hctl)).maybeRequestGap p.hdr.sequenceNumber
    obtain ⟨hnext, hpending, -⟩ := (s.hold p.hdr.sequenceNumber p.blocks).maybeRequestGap_eq p.hdr.sequenceNumber
    rw [hold_nextExpected] at hnext hasked
    have hheld : ∀ n, s.nextExpected.toNat ≤ n → p.hdr.sequenceNumber.toNat ≤ n → n < p.upTo →
        ((s.hold p.hdr.sequenceNumber p.blocks).maybeRequestGap p.hdr.sequenceNumber).1.Held n := by
      intro n hn hge hlt
      have hin := (held_hold (hw hctl)).mpr (.inr ⟨hn, hge, hupTo ▸ hlt⟩)
      rw [held_iff] at hin ⊢
      rwa [hpending]
    have hannounced := htracks.holes.announce ⟨s.nextExpected.toNat, p.upTo⟩ fun n hn hlt => by
      rw [hnext] at hn
      rcases Nat.lt_or_ge n p.hdr.sequenceNumber.toNat with hbefore | hge
      · exact .inr (hasked n hn hbefore)
      · exact .inl (hheld n hn hge hlt)
    have hall : Tracks _ (announcements ++ [⟨s.nextExpected.toNat, p.upTo⟩]) _ :=
      ⟨htracks.small, hannounced, htracks.below, htracks.starts, htracks.count⟩
    rw [if_neg hctl]
    simp only [hempty, Bool.false_eq_true, if_false]
    rw [← List.append_assoc]
    exact hall.deliverLoop

/-- Packet after packet. -/
theorem Tracks.onPackets {packets : List Packet} (h : s.Tracks announcements cs) (hw : ∀ p ∈ packets, p.NoWrap)
    (hblocks : ∀ p ∈ packets, ¬ p.hdr.IsControl → p.blocks ≠ []) :
    (s.onPackets packets).1.Tracks (announcements ++ s.announcements packets) (cs ++ (s.onPackets packets).2) := by
  induction packets generalizing s announcements cs with
  | nil => simpa [Session.onPackets, Session.announcements] using h
  | cons p packets ih =>
    have hstep := h.onPacket (hw p (by simp)) (hblocks p (by simp))
    have hrest := ih hstep (fun q hq => hw q (by simp [hq])) fun q hq => hblocks q (by simp [hq])
    simpa [Session.onPackets, Session.announcements, List.append_assoc] using hrest

/-- **Gap requests cover every hole.** After any packets that `decode_downstream` accepts, in any
order: a number that is announced and not delivered is held or in the range of a request, unless it
was out of reach of a request at each announcement of it; a request starts above all that has been
delivered before it, and there are as many as `gaps_detected` says. -/
theorem requests_cover_holes (session : SessionId) (startSeq : UInt64) (packets : List Packet)
    (hreceived : ∀ p ∈ packets, p.Received) (hw : ∀ p ∈ packets, p.NoWrap) :
    let r := (start session startSeq).onPackets packets
    (∀ n, r.1.nextExpected.toNat ≤ n → (∃ a ∈ (start session startSeq).announcements packets, n < a.upTo) →
      (∃ data, r.1.Holds n data) ∨ (∃ q ∈ requests r.2, q.AsksFor n) ∨
        ∀ a ∈ (start session startSeq).announcements packets, n < a.upTo → a.next + 65535 ≤ n) ∧
      r.2.Pairwise Callback.Below ∧ (requests r.2).length = r.1.gapsDetected := by
  have h := (tracks_start session startSeq).onPackets hw fun p hp => (hreceived p hp).blocks_ne_nil
  exact ⟨fun n hn _ => h.holes.out_of_reach hn, h.starts, h.count⟩

/-- A packet with the third message, when the first is expected. -/
def aheadPacket : Packet := ⟨⟨Vector.replicate kSessionLen 65, 3, 1⟩, [⟨[68], by decide⟩]⟩

/-- The two messages before it are asked for. -/
theorem requests_cover_holes_ahead :
    let r := (start (Vector.replicate kSessionLen 65) 1).onPackets [aheadPacket]
    ((∃ data, r.1.Holds 2 data) ∨ (∃ q ∈ requests r.2, q.AsksFor 2) ∨
      ∀ a ∈ (start (Vector.replicate kSessionLen 65) 1).announcements [aheadPacket], 2 < a.upTo → a.next + 65535 ≤ 2) ∧
      requests r.2 = [⟨Vector.replicate kSessionLen 65, 1, 2⟩] := by
  have hreceived : ∀ p ∈ [aheadPacket], p.Received := by
    intro p hp
    rw [List.mem_singleton.mp hp]
    exact ⟨encodeDownstream (Vector.replicate kSessionLen 65) 3 [[68]], [⟨22, 1⟩], by decide +kernel, by decide +kernel⟩
  have hw : ∀ p ∈ [aheadPacket], p.NoWrap := by
    unfold Packet.NoWrap
    decide +kernel
  obtain ⟨hcover, -, -⟩ := requests_cover_holes (Vector.replicate kSessionLen 65) 1 [aheadPacket] hreceived hw
  refine ⟨hcover 2 (by decide +kernel) ⟨_, List.mem_cons_self, by decide +kernel⟩, by decide +kernel⟩

end Session

end MatchingEngine.Moldudp64
