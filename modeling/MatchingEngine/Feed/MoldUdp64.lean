import MatchingEngine.Feed.Bytes
import MatchingEngine.Foundation.BigEndian
import MatchingEngine.Foundation.FixedWidth
import Mathlib.Tactic.NormNum

/-!
# MoldUDP64 framing

`cpp/feed/moldudp64.h`: a downstream packet is a header (session, sequence number of the
first message, message count) and that many message blocks, each a length and its bytes.
Two counts are reserved, for heartbeats and for the end of the session, and such a packet
has no blocks. All numbers are big-endian.
-/

namespace MatchingEngine

open Foundation

namespace Moldudp64

/-! ### Numbers -/

/-- The loop of `put_be64`, over what is left to write. -/
def putLoop : ℕ → UInt64 → Bytes → Bytes
  | 0, _, done => done
  | i + 1, v, done => putLoop i (v >>> 8) (v.toUInt8 :: done)

/-- `put_be64`. -/
def putBe64 (v : UInt64) : Bytes := putLoop 8 v []

/-- One round of `get_be64`. -/
def shiftIn (v : UInt64) (b : UInt8) : UInt64 := (v <<< 8) ||| b.toUInt64

/-- `get_be64`. -/
def getBe64 (p : Bytes) : UInt64 := (p.take 8).foldl shiftIn 0

/-- `put_be16`. -/
def putBe16 (v : UInt16) : Bytes := [(v >>> 8).toUInt8, v.toUInt8]

/-- `get_be16`. -/
def getBe16 (p : Bytes) : UInt16 := (((p.getD 0 0).toUInt32 <<< 8) ||| (p.getD 1 0).toUInt32).toUInt16

theorem putLoop_eq (k : ℕ) (v : UInt64) (done : Bytes) : putLoop k v done = writeBack k v.toNat done := by
  induction k generalizing v done with
  | zero => rfl
  | succ k ih =>
    have hv : (v >>> 8).toNat = v.toNat / 256 := by
      rw [UInt64.toNat_shiftRight, Nat.shiftRight_eq_div_pow]
      rfl
    have hb : v.toUInt8 = UInt8.ofNat v.toNat := by
      rw [← UInt8.toNat_inj, UInt64.toNat_toUInt8, UInt8.toNat_ofNat']
    rw [putLoop, ih, hv, hb, writeBack]

theorem toNat_shiftIn (v : UInt64) (b : UInt8) : (shiftIn v b).toNat = (v.toNat * 256 + b.toNat) % 2 ^ 64 := by
  have hb : b.toNat < 2 ^ 8 := b.toNat_lt
  have hs : (v <<< 8).toNat = (v.toNat % 2 ^ 56) <<< 8 := by
    rw [UInt64.toNat_shiftLeft, Nat.shiftLeft_eq, Nat.shiftLeft_eq]
    show v.toNat * 2 ^ 8 % 2 ^ 64 = _
    omega
  rw [shiftIn, UInt64.toNat_or, hs, UInt8.toNat_toUInt64, ← Nat.shiftLeft_add_eq_or_of_lt hb, Nat.shiftLeft_eq]
  omega

theorem toNat_foldl_shiftIn (v : UInt64) (bytes : Bytes) :
    (bytes.foldl shiftIn v).toNat = readFrom v.toNat bytes % 2 ^ 64 := by
  induction bytes generalizing v with
  | nil => exact (Nat.mod_eq_of_lt v.toNat_lt).symm
  | cons b bytes ih => rw [List.foldl_cons, ih, toNat_shiftIn, readFrom_mod, readFrom_cons]

@[simp] theorem length_putBe64 (v : UInt64) : (putBe64 v).length = 8 := by
  simp [putBe64, putLoop_eq]

/-- **A 64-bit number is read back as it was written.** -/
@[simp] theorem getBe64_putBe64 (v : UInt64) (rest : Bytes) : getBe64 (putBe64 v ++ rest) = v := by
  have ht : (putBe64 v ++ rest).take 8 = putBe64 v := by
    rw [← length_putBe64 v, List.take_left]
  have hv : v.toNat < 256 ^ 8 := lt_of_lt_of_eq v.toNat_lt (by norm_num)
  rw [← UInt64.toNat_inj, getBe64, ht, toNat_foldl_shiftIn, UInt64.toNat_zero, putBe64, putLoop_eq,
    readFrom_writeBack_of_lt hv, Nat.mod_eq_of_lt v.toNat_lt]

/-- **Eight bytes are written back** as they were read. -/
theorem putBe64_getBe64 {p : Bytes} (h : p.length = 8) : putBe64 (getBe64 p) = p := by
  have hlt : readFrom 0 p < 2 ^ 64 := by
    have := readFrom_lt p
    rw [h] at this
    exact lt_of_lt_of_eq this (by norm_num)
  have hback := writeBack_readFrom 0 p []
  rw [h, List.append_nil] at hback
  rw [putBe64, putLoop_eq, getBe64, List.take_of_length_le h.le, toNat_foldl_shiftIn, UInt64.toNat_zero,
    Nat.mod_eq_of_lt hlt, hback]

@[simp] theorem length_putBe16 (v : UInt16) : (putBe16 v).length = 2 := rfl

theorem toNat_getBe16 (p : Bytes) : (getBe16 p).toNat = (p.getD 0 0).toNat * 256 + (p.getD 1 0).toNat := by
  have h0 : (p.getD 0 0).toNat < 2 ^ 8 := (p.getD 0 0).toNat_lt
  have h1 : (p.getD 1 0).toNat < 2 ^ 8 := (p.getD 1 0).toNat_lt
  have hs : ((p.getD 0 0).toUInt32 <<< 8).toNat = (p.getD 0 0).toNat <<< 8 := by
    rw [UInt32.toNat_shiftLeft, UInt8.toNat_toUInt32, Nat.shiftLeft_eq, Nat.shiftLeft_eq]
    show (p.getD 0 0).toNat * 2 ^ 8 % 2 ^ 32 = _
    omega
  rw [getBe16, UInt32.toNat_toUInt16, UInt32.toNat_or, hs, UInt8.toNat_toUInt32, ← Nat.shiftLeft_add_eq_or_of_lt h1,
    Nat.shiftLeft_eq]
  omega

/-- **A 16-bit number is read back as it was written.** -/
@[simp] theorem getBe16_putBe16 (v : UInt16) (rest : Bytes) : getBe16 (putBe16 v ++ rest) = v := by
  have hv := v.toNat_lt
  have hhigh : ((v >>> 8).toUInt8).toNat = v.toNat / 256 := by
    rw [UInt16.toNat_toUInt8, UInt16.toNat_shiftRight, Nat.shiftRight_eq_div_pow]
    show v.toNat / 2 ^ 8 % 2 ^ 8 = _
    omega
  have hlow : v.toUInt8.toNat = v.toNat % 256 := UInt16.toNat_toUInt8 v
  rw [← UInt16.toNat_inj, toNat_getBe16]
  show ((v >>> 8).toUInt8).toNat * 256 + v.toUInt8.toNat = v.toNat
  omega

/-- **Two bytes are written back** as they were read. -/
theorem putBe16_getBe16 {p : Bytes} (h : p.length = 2) : putBe16 (getBe16 p) = p := by
  obtain ⟨a, b, rfl⟩ := List.length_eq_two.mp h
  have ha := a.toNat_lt
  have hb := b.toNat_lt
  have hv : (getBe16 [a, b]).toNat = a.toNat * 256 + b.toNat := toNat_getBe16 [a, b]
  have hhigh : ((getBe16 [a, b]) >>> 8).toUInt8 = a := by
    rw [← UInt8.toNat_inj, UInt16.toNat_toUInt8, UInt16.toNat_shiftRight, Nat.shiftRight_eq_div_pow, hv]
    show (a.toNat * 256 + b.toNat) / 2 ^ 8 % 2 ^ 8 = _
    omega
  have hlow : (getBe16 [a, b]).toUInt8 = b := by
    rw [← UInt8.toNat_inj, UInt16.toNat_toUInt8, hv]
    omega
  rw [putBe16, hhigh, hlow]

/-! ### Packets -/

/-- `kSessionLen`. -/
def kSessionLen : ℕ := 10

/-- `SessionId`. -/
abbrev SessionId := Vector UInt8 kSessionLen

/-- `kHeartbeat`. -/
def kHeartbeat : UInt16 := 0

/-- `kEndOfSession`. -/
def kEndOfSession : UInt16 := 0xFFFF

/-- `kDownstreamHeaderLen`. -/
def kDownstreamHeaderLen : ℕ := kSessionLen + 8 + 2

/-- `struct DownstreamHeader`. -/
structure DownstreamHeader where
  /-- `session`. -/
  session : SessionId
  /-- `sequence_number`, of the first message in the packet. -/
  sequenceNumber : UInt64
  /-- `message_count`: reserved for a heartbeat or the end of the session, or the real count. -/
  messageCount : UInt16
  deriving DecidableEq

/-- The packet is a heartbeat or the end of the session. -/
def DownstreamHeader.IsControl (hdr : DownstreamHeader) : Prop :=
  hdr.messageCount = kHeartbeat ∨ hdr.messageCount = kEndOfSession

instance (hdr : DownstreamHeader) : Decidable hdr.IsControl := inferInstanceAs (Decidable (_ ∨ _))

/-- `struct MessageBlockView`: the bytes it points at, no more of them than its 16-bit length can say. -/
structure MessageBlockView where
  /-- The bytes from `data` on. -/
  data : Bytes
  /-- `length` is a `uint16_t`. -/
  length_lt : data.length < 2 ^ 16
  deriving DecidableEq

/-- `length`. -/
def MessageBlockView.length (b : MessageBlockView) : UInt16 := UInt16.ofNat b.data.length

@[simp] theorem MessageBlockView.toNat_length (b : MessageBlockView) : b.length.toNat = b.data.length :=
  UInt16.toNat_ofNat_of_lt' b.length_lt

/-- A block as `decode_downstream` pushes it: where in the buffer it begins, and its length. -/
structure BlockRange where
  /-- `data`, as an offset into the buffer. -/
  offset : ℕ
  /-- `length`. -/
  length : UInt16
  deriving DecidableEq

/-- What a reader of the block sees. -/
def BlockRange.view (buf : Bytes) (b : BlockRange) : MessageBlockView where
  data := (buf.drop b.offset).take b.length.toNat
  length_lt := lt_of_le_of_lt (List.length_take_le _ _) b.length.toNat_lt

/-- The loop of `decode_downstream`, over the blocks that are left. -/
def decodeBlocks (buf : Bytes) : ℕ → ℕ → Except Ub (Option (List BlockRange))
  | 0, _ => .ok (some [])
  | count + 1, offset =>
    if buf.length < offset + 2 then .ok none
    else do
      let mlen := getBe16 (← bytesAt buf offset 2)
      let offset := offset + 2
      if buf.length < offset + mlen.toNat then .ok none
      else
        let blocks ← decodeBlocks buf count (offset + mlen.toNat)
        .ok (blocks.map (⟨offset, mlen⟩ :: ·))

/-- `decode_downstream`, with `none` where it returns false. -/
def decodeDownstream (buf : Bytes) : Except Ub (Option (DownstreamHeader × List BlockRange)) :=
  if buf.length < kDownstreamHeaderLen then .ok none
  else do
    let hdr : DownstreamHeader :=
      { session := readArray kSessionLen 0 (← bytesAt buf 0 kSessionLen)
        sequenceNumber := getBe64 (← bytesAt buf kSessionLen 8)
        messageCount := getBe16 (← bytesAt buf (kSessionLen + 8) 2) }
    if hdr.IsControl then .ok (some (hdr, []))
    else
      let blocks ← decodeBlocks buf hdr.messageCount.toNat kDownstreamHeaderLen
      .ok (blocks.map fun blocks => (hdr, blocks))

/-- `encode_downstream`. -/
def encodeDownstream (session : SessionId) (sequenceNumber : UInt64) (messages : List Bytes) : Bytes :=
  session.toList ++ putBe64 sequenceNumber ++ putBe16 (UInt16.ofNat messages.length) ++
    messages.flatMap fun m => putBe16 (UInt16.ofNat m.length) ++ m

/-- `encode_control`. -/
def encodeControl (session : SessionId) (nextExpectedSeq : UInt64) (messageCountValue : UInt16) : Bytes :=
  session.toList ++ putBe64 nextExpectedSeq ++ putBe16 messageCountValue

/-- `encode_heartbeat`. -/
def encodeHeartbeat (session : SessionId) (nextExpectedSeq : UInt64) : Bytes :=
  encodeControl session nextExpectedSeq kHeartbeat

/-- `kRequestLen`. -/
def kRequestLen : ℕ := kSessionLen + 8 + 2

/-- `struct RequestPacket`. -/
structure RequestPacket where
  /-- `session`. -/
  session : SessionId
  /-- `sequence_number`, the first one asked for. -/
  sequenceNumber : UInt64
  /-- `requested_message_count`. -/
  requestedMessageCount : UInt16
  deriving DecidableEq

/-- `encode_request`. -/
def encodeRequest (r : RequestPacket) : Bytes :=
  r.session.toList ++ putBe64 r.sequenceNumber ++ putBe16 r.requestedMessageCount

/-- `decode_request`, with `none` where it returns false. -/
def decodeRequest (buf : Bytes) : Except Ub (Option RequestPacket) :=
  if buf.length < kRequestLen then .ok none
  else do
    .ok (some
      { session := readArray kSessionLen 0 (← bytesAt buf 0 kSessionLen)
        sequenceNumber := getBe64 (← bytesAt buf kSessionLen 8)
        requestedMessageCount := getBe16 (← bytesAt buf (kSessionLen + 8) 2) })

end Moldudp64

end MatchingEngine
