import MatchingEngine.Feed.MoldUdp64
import MatchingEngine.Foundation.Outcome

/-!
# MoldUDP64 framing, in both directions

A packet that is encoded is decoded to what it was made of, and a packet that is decoded begins
with the encoding of what it was decoded to. Which buffers are rejected is said without the
decoder: a block begins where the one before it ends (`blockStart`), and the header is the first
`kDownstreamHeaderLen` bytes. `bytesAt` fails outside of the buffer, so that a decoder which always
gives a result has read nothing there.
-/

namespace MatchingEngine

open Foundation

namespace Moldudp64

variable {buf : Bytes}

/-! ### What a buffer announces -/

/-- The number in two bytes. -/
def numberAt (buf : Bytes) (offset : ℕ) : ℕ := (buf.getD offset 0).toNat * 256 + (buf.getD (offset + 1) 0).toNat

/-- Where a block begins, if the first one begins at an offset. -/
def blockStart (buf : Bytes) : ℕ → ℕ → ℕ
  | offset, 0 => offset
  | offset, i + 1 => blockStart buf (offset + 2 + numberAt buf offset) i

/-- How many blocks the header announces. -/
def announced (buf : Bytes) : ℕ :=
  if numberAt buf (kSessionLen + 8) = kEndOfSession.toNat then 0 else numberAt buf (kSessionLen + 8)

/-- A read that stays within the buffer. -/
theorem getBe16_bytesAt (buf : Bytes) {offset : ℕ} (h : offset + 2 ≤ buf.length) :
    ∃ p, bytesAt buf offset 2 = .ok p ∧ (getBe16 p).toNat = numberAt buf offset ∧ putBe16 (getBe16 p) = p := by
  have hlen : ((buf.drop offset).take 2).length = 2 := by
    rw [List.length_take, List.length_drop]
    omega
  refine ⟨_, bytesAt_ok h, ?_, putBe16_getBe16 hlen⟩
  rw [toNat_getBe16, numberAt]
  simp [List.getElem?_drop]

/-! ### The walk over the blocks -/

/-- A block, as it is encoded. -/
def frame (m : Bytes) : Bytes := putBe16 (UInt16.ofNat m.length) ++ m

theorem encodeDownstream_eq (session : SessionId) (sequenceNumber : UInt64) (messages : List Bytes) :
    encodeDownstream session sequenceNumber messages =
      session.toList ++ putBe64 sequenceNumber ++ putBe16 (UInt16.ofNat messages.length) ++ messages.flatMap frame := rfl

/-- What the walk over the blocks from an offset on finds. -/
structure Walked (buf : Bytes) (count offset : ℕ) (blocks : List BlockRange) : Prop where
  /-- As many blocks as announced. -/
  length : blocks.length = count
  /-- Each lies inside the buffer. -/
  inside : ∀ b ∈ blocks, b.offset + b.length.toNat ≤ buf.length
  /-- Encoded again, they are what the buffer has there. -/
  framed : (blocks.map fun b => (b.view buf).data).flatMap frame <+: buf.drop offset

/-- A block that is inside the buffer shows as many bytes as it says. -/
theorem length_view {b : BlockRange} (h : b.offset + b.length.toNat ≤ buf.length) :
    (b.view buf).data.length = b.length.toNat := by
  rw [BlockRange.view, List.length_take, List.length_drop]
  omega

/-- **One block more**: its length, its bytes, and then the other blocks. -/
theorem Walked.cons {buf : Bytes} {count offset : ℕ} {rest : List BlockRange} {len : UInt16}
    (hlen : putBe16 len = (buf.drop offset).take 2) (hbody : offset + 2 + len.toNat ≤ buf.length)
    (h : Walked buf count (offset + 2 + len.toNat) rest) : Walked buf (count + 1) offset (⟨offset + 2, len⟩ :: rest) where
  length := by simp [h.length]
  inside := List.forall_mem_cons.mpr ⟨hbody, h.inside⟩
  framed := by
    have hsplit : buf.drop offset = (buf.drop offset).take 2 ++ ((buf.drop (offset + 2)).take len.toNat ++
        buf.drop (offset + 2 + len.toNat)) := by
      rw [← drop_eq_take_append buf (offset + 2), ← drop_eq_take_append buf offset]
    have hview : ((BlockRange.mk (offset + 2) len).view buf).data = (buf.drop (offset + 2)).take len.toNat := rfl
    have hlength : ((BlockRange.mk (offset + 2) len).view buf).data.length = len.toNat := length_view hbody
    rw [List.map_cons, List.flatMap_cons, frame, hlength, UInt16.ofNat_toNat, hlen, hview, List.append_assoc]
    conv_rhs => rw [hsplit]
    exact (List.prefix_append_right_inj _).mpr ((List.prefix_append_right_inj _).mpr h.framed)

/-- **The walk over the blocks** ends, reads nothing outside of the buffer, and fails if and only if one of
the blocks does not fit. -/
theorem decodeBlocks_spec (buf : Bytes) (count offset : ℕ) :
    ∃ r, decodeBlocks buf count offset = .ok r ∧
      (r = none ↔ ∃ i < count, buf.length < blockStart buf offset (i + 1)) ∧
      ∀ blocks, r = some blocks → Walked buf count offset blocks := by
  induction count generalizing offset with
  | zero =>
    refine ⟨_, rfl, by simp, ?_⟩
    intro blocks hblocks
    obtain rfl := Option.some.inj hblocks
    exact ⟨rfl, by simp, by simp⟩
  | succ count ih =>
    rw [decodeBlocks]
    by_cases hlen : buf.length < offset + 2
    · refine ⟨none, by rw [if_pos hlen], iff_of_true rfl ⟨0, by omega, ?_⟩, by simp⟩
      show buf.length < offset + 2 + numberAt buf offset
      omega
    obtain ⟨p, hread, hnum, hput⟩ := getBe16_bytesAt buf (show offset + 2 ≤ buf.length by omega)
    rw [if_neg hlen, hread, ok_bind]
    dsimp only
    by_cases hbody : buf.length < offset + 2 + (getBe16 p).toNat
    · refine ⟨none, by rw [if_pos hbody], iff_of_true rfl ⟨0, by omega, ?_⟩, by simp⟩
      show buf.length < offset + 2 + numberAt buf offset
      rwa [← hnum]
    obtain ⟨r, hr, hnone, hsome⟩ := ih (offset + 2 + (getBe16 p).toNat)
    refine ⟨r.map (⟨offset + 2, getBe16 p⟩ :: ·), by rw [if_neg hbody, hr, ok_bind], ?_, ?_⟩
    · rw [Option.map_eq_none_iff, hnone]
      constructor
      · rintro ⟨i, hi, hlt⟩
        refine ⟨i + 1, by omega, ?_⟩
        rwa [blockStart, ← hnum]
      · rintro ⟨i, hi, hlt⟩
        cases i with
        | zero =>
          rw [blockStart, ← hnum] at hlt
          exact absurd hlt hbody
        | succ i =>
          refine ⟨i, by omega, ?_⟩
          rwa [blockStart, ← hnum] at hlt
    · intro blocks hblocks
      obtain ⟨rest, hrest, rfl⟩ := Option.map_eq_some_iff.mp hblocks
      have hp : p = (buf.drop offset).take 2 := by
        rw [bytesAt_ok (by omega)] at hread
        exact (Except.ok.inj hread).symm
      exact (hsome rest hrest).cons (hput.trans hp) (Nat.le_of_not_lt hbody)

/-! ### Decoding -/

/-- **The header is the first twenty bytes**, and the blocks that are walked over come after it. -/
theorem Walked.encoded {buf : Bytes} {count : UInt16} {blocks : List BlockRange}
    (h : Walked buf count.toNat kDownstreamHeaderLen blocks) (hlong : 20 ≤ buf.length)
    (hcount : putBe16 count = (buf.drop (kSessionLen + 8)).take 2) :
    encodeDownstream (readArray kSessionLen 0 (buf.take kSessionLen)) (getBe64 ((buf.drop kSessionLen).take 8))
      (blocks.map fun b => (b.view buf).data) <+: buf := by
  have harray : (readArray kSessionLen 0 (buf.take kSessionLen)).toList = buf.take kSessionLen := by
    have hten : kSessionLen ≤ (buf.take kSessionLen).length := by
      rw [List.length_take]
      exact le_min le_rfl (show 10 ≤ buf.length by omega)
    rw [toList_readArray 0 hten, List.take_take, Nat.min_self]
  have hbytes : ((buf.drop kSessionLen).take 8).length = 8 := by
    rw [List.length_take, List.length_drop]
    show min 8 (buf.length - 10) = 8
    omega
  rw [encodeDownstream_eq, List.length_map, h.length, UInt16.ofNat_toNat, harray, putBe64_getBe64 hbytes, hcount]
  have hsplit : buf = buf.take kSessionLen ++ ((buf.drop kSessionLen).take 8 ++
      ((buf.drop (kSessionLen + 8)).take 2 ++ buf.drop kDownstreamHeaderLen)) := by
    rw [kDownstreamHeaderLen, ← drop_eq_take_append buf (kSessionLen + 8), ← drop_eq_take_append buf kSessionLen,
      List.take_append_drop]
  conv_rhs => rw [hsplit]
  rw [List.append_assoc, List.append_assoc]
  refine (List.prefix_append_right_inj _).mpr ((List.prefix_append_right_inj _).mpr ?_)
  exact (List.prefix_append_right_inj _).mpr h.framed

/-- What decoding a buffer that is rejected or accepted says. -/
theorem decodeDownstream_spec (buf : Bytes) :
    ∃ r, decodeDownstream buf = .ok r ∧
      (r = none ↔ buf.length < kDownstreamHeaderLen ∨
        ∃ i < announced buf, buf.length < blockStart buf kDownstreamHeaderLen (i + 1)) ∧
      ∀ hdr blocks, r = some (hdr, blocks) → (∀ b ∈ blocks, b.offset + b.length.toNat ≤ buf.length) ∧
        (¬ hdr.IsControl →
          encodeDownstream hdr.session hdr.sequenceNumber (blocks.map fun b => (b.view buf).data) <+: buf) := by
  rw [decodeDownstream]
  by_cases hlen : buf.length < kDownstreamHeaderLen
  · exact ⟨none, by rw [if_pos hlen], iff_of_true rfl (Or.inl hlen), by simp⟩
  have hlong : 20 ≤ buf.length := Nat.le_of_not_lt hlen
  obtain ⟨p, hread, hnum, hput⟩ := getBe16_bytesAt buf (show kSessionLen + 8 + 2 ≤ buf.length from hlong)
  have hsession : bytesAt buf 0 kSessionLen = .ok (buf.take kSessionLen) :=
    bytesAt_ok (show 0 + 10 ≤ buf.length by omega)
  have hseq : bytesAt buf kSessionLen 8 = .ok ((buf.drop kSessionLen).take 8) :=
    bytesAt_ok (show 10 + 8 ≤ buf.length by omega)
  rw [if_neg hlen, hsession, ok_bind, hseq, ok_bind, hread, ok_bind]
  dsimp only
  by_cases hcontrol : DownstreamHeader.IsControl ⟨readArray kSessionLen 0 (buf.take kSessionLen),
      getBe64 ((buf.drop kSessionLen).take 8), getBe16 p⟩
  · refine ⟨_, by rw [if_pos hcontrol], iff_of_false (by simp) ?_, ?_⟩
    · rintro (h | ⟨i, hi, -⟩)
      · exact hlen h
      · rw [announced, ← hnum] at hi
        rcases hcontrol with h | h
        · rw [show getBe16 p = kHeartbeat from h] at hi
          exact absurd hi (by simp [kHeartbeat])
        · rw [show getBe16 p = kEndOfSession from h, if_pos rfl] at hi
          exact absurd hi (Nat.not_lt_zero i)
    · intro hdr blocks hr
      obtain ⟨rfl, rfl⟩ := Prod.mk.inj (Option.some.inj hr)
      exact ⟨by simp, fun h => absurd hcontrol h⟩
  rw [if_neg hcontrol]
  obtain ⟨r, hr, hnone, hsome⟩ := decodeBlocks_spec buf (getBe16 p).toNat kDownstreamHeaderLen
  have hannounced : announced buf = (getBe16 p).toNat := by
    have hend : numberAt buf (kSessionLen + 8) ≠ kEndOfSession.toNat := by
      rw [← hnum]
      exact fun h => hcontrol (Or.inr (UInt16.toNat_inj.mp h))
    rw [announced, if_neg hend, hnum]
  refine ⟨r.map _, by rw [hr, ok_bind], ?_, ?_⟩
  · rw [Option.map_eq_none_iff, hnone, hannounced, or_iff_right hlen]
  · intro hdr blocks hmap
    obtain ⟨blocks', hblocks, hpair⟩ := Option.map_eq_some_iff.mp hmap
    obtain ⟨rfl, rfl⟩ := Prod.mk.inj hpair
    have hp : p = (buf.drop (kSessionLen + 8)).take 2 := by
      rw [bytesAt_ok hlong] at hread
      exact (Except.ok.inj hread).symm
    exact ⟨(hsome blocks' hblocks).inside, fun _ => (hsome blocks' hblocks).encoded hlong (hput.trans hp)⟩

/-! ### Encoding, and then decoding -/

/-- What is read from the middle of a buffer. -/
theorem bytesAt_append {offset n : ℕ} {before m : Bytes} (after : Bytes) (hb : before.length = offset)
    (h : m.length = n) : bytesAt (before ++ (m ++ after)) offset n = .ok m := by
  rw [← hb, bytesAt_ok (by rw [List.length_append, List.length_append]; omega), List.drop_left, ← h, List.take_left]

/-- **Framed messages are walked over**, one after the other. -/
theorem decodeBlocks_framed (before : Bytes) {messages : List Bytes} (hm : ∀ m ∈ messages, m.length < 2 ^ 16) :
    ∃ blocks, decodeBlocks (before ++ messages.flatMap frame) messages.length before.length = .ok (some blocks) ∧
      blocks.map (fun b => (b.view (before ++ messages.flatMap frame)).data) = messages := by
  induction messages generalizing before with
  | nil => exact ⟨[], rfl, rfl⟩
  | cons m messages ih =>
    have hfit : (UInt16.ofNat m.length).toNat = m.length := UInt16.toNat_ofNat_of_lt' (hm m (by simp))
    have hlen : (before ++ (m :: messages).flatMap frame).length =
        before.length + 2 + m.length + (messages.flatMap frame).length := by
      simp only [List.flatMap_cons, frame, List.length_append, length_putBe16]
      omega
    have hfront : before ++ (m :: messages).flatMap frame =
        before ++ (putBe16 (UInt16.ofNat m.length) ++ (m ++ messages.flatMap frame)) := by
      rw [List.flatMap_cons, frame, List.append_assoc]
    have hrest : before ++ (m :: messages).flatMap frame =
        (before ++ putBe16 (UInt16.ofNat m.length) ++ m) ++ messages.flatMap frame := by
      rw [hfront, List.append_assoc, List.append_assoc]
    obtain ⟨blocks, hblocks, hview⟩ := ih (before ++ putBe16 (UInt16.ofNat m.length) ++ m) fun x hx => hm x (by simp [hx])
    rw [← hrest] at hblocks hview
    have hnext : (before ++ putBe16 (UInt16.ofNat m.length) ++ m).length = before.length + 2 + m.length := by
      simp only [List.length_append, length_putBe16]
    have hread : bytesAt (before ++ (m :: messages).flatMap frame) before.length 2 = .ok (putBe16 (UInt16.ofNat m.length)) := by
      rw [hfront]
      exact bytesAt_append (m ++ messages.flatMap frame) rfl rfl
    have hnum : getBe16 (putBe16 (UInt16.ofNat m.length)) = UInt16.ofNat m.length := by
      have := getBe16_putBe16 (UInt16.ofNat m.length) []
      rwa [List.append_nil] at this
    refine ⟨⟨before.length + 2, UInt16.ofNat m.length⟩ :: blocks, ?_, ?_⟩
    · rw [List.length_cons, decodeBlocks, if_neg (by omega), hread, ok_bind]
      dsimp only
      rw [hnum, hfit, if_neg (by omega), ← hnext, hblocks]
      rfl
    · rw [List.map_cons, hview]
      congr 1
      have hdrop : (before ++ (m :: messages).flatMap frame).drop (before.length + 2) = m ++ messages.flatMap frame := by
        rw [hfront, ← List.append_assoc]
        exact List.drop_left' (by rw [List.length_append, length_putBe16])
      rw [BlockRange.view]
      dsimp only
      rw [hdrop, hfit, List.take_left]

/-- **A packet that is encoded is decoded** to what it was made of. -/
theorem decodeDownstream_encodeDownstream (session : SessionId) (sequenceNumber : UInt64) {messages : List Bytes}
    (hpos : 1 ≤ messages.length) (hcount : messages.length ≤ 65534) (hm : ∀ m ∈ messages, m.length ≤ 65535) :
    ∃ blocks, decodeDownstream (encodeDownstream session sequenceNumber messages) =
        .ok (some (⟨session, sequenceNumber, UInt16.ofNat messages.length⟩, blocks)) ∧
      (UInt16.ofNat messages.length).toNat = messages.length ∧
      blocks.map (fun b => (b.view (encodeDownstream session sequenceNumber messages)).data) = messages := by
  have hfit : (UInt16.ofNat messages.length).toNat = messages.length :=
    UInt16.toNat_ofNat_of_lt' (show messages.length < 65536 by omega)
  have hsession : session.toList.length = kSessionLen := by simp
  have hheader : (session.toList ++ putBe64 sequenceNumber ++ putBe16 (UInt16.ofNat messages.length)).length =
      kDownstreamHeaderLen := by
    rw [List.length_append, List.length_append, hsession, length_putBe64, length_putBe16]
    rfl
  obtain ⟨blocks, hblocks, hview⟩ := decodeBlocks_framed
    (session.toList ++ putBe64 sequenceNumber ++ putBe16 (UInt16.ofNat messages.length))
    fun m hmem => Nat.lt_of_le_of_lt (hm m hmem) (by decide)
  rw [← encodeDownstream_eq, hheader] at hblocks
  rw [← encodeDownstream_eq] at hview
  have hlong : ¬ (encodeDownstream session sequenceNumber messages).length < kDownstreamHeaderLen := by
    rw [encodeDownstream_eq, List.length_append, hheader]
    omega
  have hread0 : bytesAt (encodeDownstream session sequenceNumber messages) 0 kSessionLen = .ok session.toList := by
    rw [encodeDownstream_eq, List.append_assoc, List.append_assoc]
    exact bytesAt_append _ (show ([] : Bytes).length = 0 from rfl) hsession
  have hread1 : bytesAt (encodeDownstream session sequenceNumber messages) kSessionLen 8 = .ok (putBe64 sequenceNumber) := by
    rw [encodeDownstream_eq, List.append_assoc, List.append_assoc]
    exact bytesAt_append _ hsession (length_putBe64 _)
  have hread2 : bytesAt (encodeDownstream session sequenceNumber messages) (kSessionLen + 8) 2 =
      .ok (putBe16 (UInt16.ofNat messages.length)) := by
    have hoff : (session.toList ++ putBe64 sequenceNumber).length = kSessionLen + 8 := by
      rw [List.length_append, hsession, length_putBe64]
    rw [encodeDownstream_eq, List.append_assoc]
    exact bytesAt_append _ hoff (length_putBe16 _)
  have harray : readArray kSessionLen 0 session.toList = session := by
    have := readArray_toList_append kSessionLen 0 session []
    rwa [List.append_nil] at this
  have hseq : getBe64 (putBe64 sequenceNumber) = sequenceNumber := by
    have := getBe64_putBe64 sequenceNumber []
    rwa [List.append_nil] at this
  have hnum : getBe16 (putBe16 (UInt16.ofNat messages.length)) = UInt16.ofNat messages.length := by
    have := getBe16_putBe16 (UInt16.ofNat messages.length) []
    rwa [List.append_nil] at this
  have hreal : ¬ DownstreamHeader.IsControl ⟨session, sequenceNumber, UInt16.ofNat messages.length⟩ := by
    rintro (h | h)
    · have h := congrArg UInt16.toNat h
      rw [hfit] at h
      exact absurd h (show messages.length ≠ 0 by omega)
    · have h := congrArg UInt16.toNat h
      rw [hfit] at h
      exact absurd h (show messages.length ≠ 65535 by omega)
  refine ⟨blocks, ?_, hfit, hview⟩
  rw [decodeDownstream, if_neg hlong, hread0, ok_bind, hread1, ok_bind, hread2, ok_bind]
  dsimp only
  rw [harray, hseq, hnum, if_neg hreal, hfit, hblocks, ok_bind]
  rfl

/-- **MoldUDP64 framing is exact**: what is encoded is decoded; what is decoded, encoded again, is what the
buffer begins with; a buffer is rejected if and only if it is shorter than the header or an announced block does
not fit; and the decoder always gives a result, whose blocks lie inside the buffer. -/
theorem downstream_exact :
    (∀ (session : SessionId) (sequenceNumber : UInt64) (messages : List Bytes), 1 ≤ messages.length →
      messages.length ≤ 65534 → (∀ m ∈ messages, m.length ≤ 65535) →
      ∃ blocks, decodeDownstream (encodeDownstream session sequenceNumber messages) =
          .ok (some (⟨session, sequenceNumber, UInt16.ofNat messages.length⟩, blocks)) ∧
        (UInt16.ofNat messages.length).toNat = messages.length ∧
        blocks.map (fun b => (b.view (encodeDownstream session sequenceNumber messages)).data) = messages) ∧
    ∀ buf : Bytes, ∃ r, decodeDownstream buf = .ok r ∧
      (r = none ↔ buf.length < kDownstreamHeaderLen ∨
        ∃ i < announced buf, buf.length < blockStart buf kDownstreamHeaderLen (i + 1)) ∧
      ∀ hdr blocks, r = some (hdr, blocks) → (∀ b ∈ blocks, b.offset + b.length.toNat ≤ buf.length) ∧
        (¬ hdr.IsControl →
          encodeDownstream hdr.session hdr.sequenceNumber (blocks.map fun b => (b.view buf).data) <+: buf) :=
  ⟨fun session sequenceNumber _ hpos hcount hm =>
    decodeDownstream_encodeDownstream session sequenceNumber hpos hcount hm, decodeDownstream_spec⟩

/-- A packet with two messages. -/
theorem downstream_exact_two :
    ∃ blocks, decodeDownstream (encodeDownstream (Vector.replicate 10 65) 7 [[1, 2], [3]]) =
        .ok (some (⟨Vector.replicate 10 65, 7, UInt16.ofNat 2⟩, blocks)) ∧
      (UInt16.ofNat 2).toNat = 2 ∧
      blocks.map (fun b => (b.view (encodeDownstream (Vector.replicate 10 65) 7 [[1, 2], [3]])).data) = [[1, 2], [3]] :=
  downstream_exact.1 (Vector.replicate 10 65) 7 [[1, 2], [3]] (by decide) (by decide) (by decide)

end Moldudp64

end MatchingEngine
