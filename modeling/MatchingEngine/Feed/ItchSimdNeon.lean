import MatchingEngine.Feed.ItchParser
import MatchingEngine.Foundation.Lanes

/-!
# The vectorised Add Order decoder

`cpp/feed/itch_simd_neon.cpp`: Add Order records are decoded four at a time. The order
references of two records share a 128-bit register of two lanes, the share counts and the
prices of all four one register of four lanes each, and one instruction reverses the bytes of
all lanes. What is left over is decoded by `parse_message`.

`decodeAddOrderBatch_eq` says that this is decoding one record after the other. Of the
instructions it is assumed what their definitions here say: which operand comes to the low
lane, which bytes are reversed, and that the host keeps a number with its least significant
byte first.
-/

namespace MatchingEngine

open Foundation

namespace Itch

/-! ### The intrinsics -/

/-- `uint8x16_t` and `uint64x2_t`: a register of two 64-bit lanes. -/
abbrev Reg64 := Register 2 8

/-- `uint8x16_t` and `uint32x4_t`: a register of four 32-bit lanes. -/
abbrev Reg32 := Register 4 4

/-- The lanes of the first are numbered `0` and `1`. -/
local instance twoLanes : NeZero 2 := ⟨two_ne_zero⟩

/-- `vld1_u8`: eight bytes from memory. -/
def vld1U8 (data : Bytes) (offset : ℕ) : Except Ub (Vector UInt8 8) := do
  .ok (readArray 8 0 (← bytesAt data offset 8))

/-- `vcombine_u8`: the first operand is the low half. -/
def vcombineU8 (low high : Vector UInt8 8) : Reg64 := .ofBytes fun j k => if j = 0 then low[k] else high[k]

/-- `vrev64q_u8`. -/
def vrev64qU8 (v : Reg64) : Reg64 := v.reverseLanes

/-- `vgetq_lane_u64`. -/
def vgetqLaneU64 (v : Reg64) (lane : Fin 2) : UInt64 := UInt64.ofNat (littleEndian (v.lane lane))

/-- `std::memcpy` of four bytes into a `uint32_t`. -/
def memcpyU32 (data : Bytes) (offset : ℕ) : Except Ub UInt32 := do
  .ok (UInt32.ofNat (littleEndian (← bytesAt data offset 4)))

/-- `vld1q_u32`. -/
def vld1qU32 (raw : Vector UInt32 4) : Reg32 := .ofBytes fun j k => leByte raw[j].toNat k

/-- `vrev32q_u8`. -/
def vrev32qU8 (v : Reg32) : Reg32 := v.reverseLanes

/-- `vst1q_u32`. -/
def vst1qU32 (v : Reg32) : Vector UInt32 4 := Vector.ofFn fun j => UInt32.ofNat (littleEndian (v.lane j))

/-! ### The decoder -/

/-- Why a batch is not decoded. -/
inductive BatchFailure where
  /-- A read outside of a record. -/
  | ub (u : Ub)
  /-- `std::bad_variant_access`, for a record of another type. -/
  | badVariantAccess
  deriving DecidableEq

/-- The message of one of the four records, with what the registers hold for it. -/
def messageOf (data : Bytes) (orderRefNumber : UInt64) (shares price : UInt32) : Except Ub AddOrderNoMPID := do
  .ok
    { h := ← readCommonHeader data
      orderRefNumber
      buySellIndicator := ← charAt data 19
      shares
      stock := readAlpha 8 (← bytesAt data 24 8)
      price }

/-- A round of the first loop of `decode_add_order_batch`. -/
def decodeFour (m : Vector Bytes 4) : Except Ub (List AddOrderNoMPID) := do
  let ref01 := vcombineU8 (← vld1U8 m[0] 11) (← vld1U8 m[1] 11)
  let ref23 := vcombineU8 (← vld1U8 m[2] 11) (← vld1U8 m[3] 11)
  let refs01 := vrev64qU8 ref01
  let refs23 := vrev64qU8 ref23
  let refs : Vector UInt64 4 :=
    #v[vgetqLaneU64 refs01 0, vgetqLaneU64 refs01 1, vgetqLaneU64 refs23 0, vgetqLaneU64 refs23 1]
  let sharesRaw : Vector UInt32 4 :=
    #v[← memcpyU32 m[0] 20, ← memcpyU32 m[1] 20, ← memcpyU32 m[2] 20, ← memcpyU32 m[3] 20]
  let priceRaw : Vector UInt32 4 :=
    #v[← memcpyU32 m[0] 32, ← memcpyU32 m[1] 32, ← memcpyU32 m[2] 32, ← memcpyU32 m[3] 32]
  let sharesArr := vst1qU32 (vrev32qU8 (vld1qU32 sharesRaw))
  let priceArr := vst1qU32 (vrev32qU8 (vld1qU32 priceRaw))
  let msg0 ← messageOf m[0] refs[0] sharesArr[0] priceArr[0]
  let msg1 ← messageOf m[1] refs[1] sharesArr[1] priceArr[1]
  let msg2 ← messageOf m[2] refs[2] sharesArr[2] priceArr[2]
  let msg3 ← messageOf m[3] refs[3] sharesArr[3] priceArr[3]
  .ok [msg0, msg1, msg2, msg3]

/-- The last loop of `decode_add_order_batch`. -/
def decodeTail : List Bytes → Except BatchFailure (List AddOrderNoMPID)
  | [] => .ok []
  | data :: msgs => do
    let parsed ← (bytesAt data 0 (expectedLength 'A') >>= parseMessage).mapError .ub
    match parsed with
    | none => decodeTail msgs
    | some (.addOrderNoMPID msg) => return msg :: (← decodeTail msgs)
    | some _ => .error .badVariantAccess

/-- `decode_add_order_batch`. -/
def decodeAddOrderBatch : List Bytes → Except BatchFailure (List AddOrderNoMPID)
  | m0 :: m1 :: m2 :: m3 :: msgs => do
    let four ← (decodeFour #v[m0, m1, m2, m3]).mapError .ub
    return four ++ (← decodeAddOrderBatch msgs)
  | msgs => decodeTail msgs

/-! ### Lanes -/

theorem toNat_be64 (p : Bytes) : (be64 p).toNat = readFrom 0 (p.take 8) % 2 ^ 64 := Moldudp64.toNat_foldl_shiftIn 0 _

theorem lane_vcombineU8_zero (low high : Vector UInt8 8) : (vcombineU8 low high).lane 0 = low.toList := by
  rw [vcombineU8, Register.lane_ofBytes]
  refine List.ext_getElem (by simp) fun i hi hi' => ?_
  rw [List.getElem_ofFn]
  rfl

theorem lane_vcombineU8_one (low high : Vector UInt8 8) : (vcombineU8 low high).lane 1 = high.toList := by
  rw [vcombineU8, Register.lane_ofBytes]
  refine List.ext_getElem (by simp) fun i hi hi' => ?_
  rw [List.getElem_ofFn]
  rfl

/-- A 64-bit lane of eight bytes, reversed, is their number off the wire. -/
theorem vgetqLaneU64_vrev64qU8 (v : Reg64) (j : Fin 2) {p : Bytes} (h : v.lane j = p) :
    vgetqLaneU64 (vrev64qU8 v) j = be64 p := by
  have hlen : p.length = 8 := h ▸ v.length_lane j
  rw [← UInt64.toNat_inj, toNat_be64, List.take_of_length_le hlen.le, vgetqLaneU64, vrev64qU8,
    Register.littleEndian_lane_reverseLanes, h, UInt64.toNat_ofNat']

/-- A 32-bit lane that four bytes were copied to, reversed, is their number off the wire. -/
theorem vst1qU32_vrev32qU8 (raw : Vector UInt32 4) (j : Fin 4) {p : Bytes} (hlen : p.length = 4)
    (h : raw[j] = UInt32.ofNat (littleEndian p)) : (vst1qU32 (vrev32qU8 (vld1qU32 raw)))[j] = be32 p := by
  have hlt : littleEndian p < 2 ^ 32 := by
    have := littleEndian_lt p
    rw [hlen] at this
    exact lt_of_lt_of_eq this (by norm_num)
  have hread : readFrom 0 p < 2 ^ 32 := by
    have := readFrom_lt p
    rw [hlen] at this
    exact lt_of_lt_of_eq this (by norm_num)
  have hlane : (vld1qU32 raw).lane j = p := by
    rw [vld1qU32, Register.lane_ofBytes]
    refine List.ext_getElem (by simp [hlen]) fun i hi hi' => ?_
    rw [List.getElem_ofFn, h, UInt32.toNat_ofNat_of_lt' hlt, leByte_littleEndian p (by simpa [hlen] using hi)]
  rw [← UInt32.toNat_inj, toNat_be32 hlen, vst1qU32, Fin.getElem_fin, Vector.getElem_ofFn, Fin.eta, vrev32qU8,
    Register.littleEndian_lane_reverseLanes, hlane, UInt32.toNat_ofNat_of_lt' hread]

/-! ### Records -/

section Record

variable {data : Bytes}

/-- The Add Order in a record. -/
def addOrderOf (data : Bytes) : AddOrderNoMPID where
  h :=
    { stockLocate := be16 ((data.drop 1).take 2)
      trackingNumber := be16 ((data.drop 3).take 2)
      timestampNs := be48 ((data.drop 5).take 6) }
  orderRefNumber := be64 ((data.drop 11).take 8)
  buySellIndicator := ((data.drop 19).take 1).getD 0 0
  shares := be32 ((data.drop 20).take 4)
  stock := readAlpha 8 ((data.drop 24).take 8)
  price := be32 ((data.drop 32).take 4)

theorem decodeAddOrderScalar_eq (h : data.length = 36) : decodeAddOrderScalar data = .ok (addOrderOf data) := by
  simp (disch := omega) only [decodeAddOrderScalar, readCommonHeader, charAt_ok, bytesAt_ok, ok_bind]
  rfl

theorem messageOf_eq (h : data.length = 36) :
    messageOf data (be64 ((data.drop 11).take 8)) (be32 ((data.drop 20).take 4)) (be32 ((data.drop 32).take 4)) =
      .ok (addOrderOf data) := by
  simp (disch := omega) only [messageOf, readCommonHeader, charAt_ok, bytesAt_ok, ok_bind]
  rfl

theorem vld1U8_eq {offset : ℕ} (h : offset + 8 ≤ data.length) :
    vld1U8 data offset = .ok (readArray 8 0 ((data.drop offset).take 8)) := by
  rw [vld1U8, bytesAt_ok h, ok_bind]

theorem memcpyU32_eq {offset : ℕ} (h : offset + 4 ≤ data.length) :
    memcpyU32 data offset = .ok (UInt32.ofNat (littleEndian ((data.drop offset).take 4))) := by
  rw [memcpyU32, bytesAt_ok h, ok_bind]

end Record

/-- Two words gathered in a register and reversed. -/
theorem gathered64 {p q : Bytes} (hp : p.length = 8) (hq : q.length = 8) :
    vgetqLaneU64 (vrev64qU8 (vcombineU8 (readArray 8 0 p) (readArray 8 0 q))) 0 = be64 p ∧
      vgetqLaneU64 (vrev64qU8 (vcombineU8 (readArray 8 0 p) (readArray 8 0 q))) 1 = be64 q := by
  constructor
  · apply vgetqLaneU64_vrev64qU8
    rw [lane_vcombineU8_zero, toList_readArray 0 hp.ge, List.take_of_length_le hp.le]
  · apply vgetqLaneU64_vrev64qU8
    rw [lane_vcombineU8_one, toList_readArray 0 hq.ge, List.take_of_length_le hq.le]

/-- Four words gathered in a register and reversed. -/
theorem gathered32 {p q r s : Bytes} (hp : p.length = 4) (hq : q.length = 4) (hr : r.length = 4)
    (hs : s.length = 4) {raw : Vector UInt32 4}
    (hraw : raw = #v[UInt32.ofNat (littleEndian p), UInt32.ofNat (littleEndian q), UInt32.ofNat (littleEndian r),
      UInt32.ofNat (littleEndian s)]) :
    (vst1qU32 (vrev32qU8 (vld1qU32 raw)))[0] = be32 p ∧ (vst1qU32 (vrev32qU8 (vld1qU32 raw)))[1] = be32 q ∧
      (vst1qU32 (vrev32qU8 (vld1qU32 raw)))[2] = be32 r ∧ (vst1qU32 (vrev32qU8 (vld1qU32 raw)))[3] = be32 s := by
  subst hraw
  exact ⟨vst1qU32_vrev32qU8 _ 0 hp rfl, vst1qU32_vrev32qU8 _ 1 hq rfl, vst1qU32_vrev32qU8 _ 2 hr rfl,
    vst1qU32_vrev32qU8 _ 3 hs rfl⟩

/-- **Four records in the registers** are decoded as each on its own. -/
theorem decodeFour_eq {m0 m1 m2 m3 : Bytes} (h0 : m0.length = 36) (h1 : m1.length = 36) (h2 : m2.length = 36)
    (h3 : m3.length = 36) :
    decodeFour #v[m0, m1, m2, m3] = .ok [addOrderOf m0, addOrderOf m1, addOrderOf m2, addOrderOf m3] := by
  have hlen : ∀ {m : Bytes} (offset n : ℕ), m.length = 36 → offset + n ≤ 36 →
      ((m.drop offset).take n).length = n := fun offset n hm hn => length_slice (hm ▸ hn)
  obtain ⟨href0, href1⟩ := gathered64 (hlen 11 8 h0 (by decide)) (hlen 11 8 h1 (by decide))
  obtain ⟨href2, href3⟩ := gathered64 (hlen 11 8 h2 (by decide)) (hlen 11 8 h3 (by decide))
  obtain ⟨hshares0, hshares1, hshares2, hshares3⟩ := gathered32 (hlen 20 4 h0 (by decide)) (hlen 20 4 h1 (by decide))
    (hlen 20 4 h2 (by decide)) (hlen 20 4 h3 (by decide)) rfl
  obtain ⟨hprice0, hprice1, hprice2, hprice3⟩ := gathered32 (hlen 32 4 h0 (by decide)) (hlen 32 4 h1 (by decide))
    (hlen 32 4 h2 (by decide)) (hlen 32 4 h3 (by decide)) rfl
  simp (disch := omega) only [decodeFour, Vector.getElem_mk, List.getElem_toArray, List.getElem_cons_zero,
    List.getElem_cons_succ, vld1U8_eq, memcpyU32_eq, ok_bind]
  rw [href0, href1, href2, href3, hshares0, hshares1, hshares2, hshares3, hprice0, hprice1, hprice2, hprice3,
    messageOf_eq h0, messageOf_eq h1, messageOf_eq h2, messageOf_eq h3]
  rfl

/-! ### Batches -/

/-- A complete record of an Add Order. -/
structure AddOrderRecord where
  /-- Its bytes. -/
  bytes : Vector UInt8 36
  /-- The first is its type. -/
  isAdd : bytes[0] = 65

/-- The bytes of some records, as the batch decoder is given them. -/
def AddOrderRecord.msgs (records : List AddOrderRecord) : List Bytes := records.map fun r => r.bytes.toList

namespace AddOrderRecord

theorem length_bytes (r : AddOrderRecord) : r.bytes.toList.length = 36 := by simp

/-- The scalar tail decodes a record as the scalar decoder does. -/
theorem parseMessage_eq (r : AddOrderRecord) :
    parseMessage r.bytes.toList = .ok (some (.addOrderNoMPID (addOrderOf r.bytes.toList))) := by
  have hlen := r.length_bytes
  have hzero : r.bytes.toList[0]? = some 65 := by
    rw [List.getElem?_eq_getElem (by omega), Vector.getElem_toList, r.isAdd]
  have hfirst : charAt r.bytes.toList 0 = .ok 65 := by
    rw [charAt_ok (by omega), List.drop_zero, List.getD_eq_getElem?_getD, List.getElem?_take_of_lt (by decide), hzero]
    rfl
  have hheader : readCommonHeader r.bytes.toList = .ok (addOrderOf r.bytes.toList).h := by
    simp (disch := omega) only [readCommonHeader, bytesAt_ok, ok_bind]
    rfl
  rw [Itch.parseMessage_eq hfirst (by decide) (hlen.ge.trans' (by decide)), hheader, ok_bind]
  show decodeAddOrderScalar r.bytes.toList >>= _ = _
  rw [decodeAddOrderScalar_eq hlen, ok_bind]

/-- The messages in some records. -/
def orders (records : List AddOrderRecord) : List AddOrderNoMPID := records.map fun r => addOrderOf r.bytes.toList

theorem mapM_decodeAddOrderScalar (records : List AddOrderRecord) :
    (msgs records).mapM decodeAddOrderScalar = .ok (orders records) := by
  induction records with
  | nil => rfl
  | cons r records ih =>
    rw [msgs, List.map_cons, List.mapM_cons, decodeAddOrderScalar_eq r.length_bytes, ok_bind]
    rw [msgs] at ih
    rw [ih]
    rfl

theorem decodeTail_msgs (records : List AddOrderRecord) : decodeTail (msgs records) = .ok (orders records) := by
  induction records with
  | nil => rfl
  | cons r records ih =>
    have hread : bytesAt r.bytes.toList 0 (expectedLength 'A') = .ok r.bytes.toList := by
      show bytesAt r.bytes.toList 0 36 = _
      rw [bytesAt_ok r.length_bytes.ge, List.drop_zero, List.take_of_length_le r.length_bytes.le]
    rw [msgs, List.map_cons, decodeTail, hread, ok_bind, r.parseMessage_eq]
    rw [msgs] at ih
    show (do return addOrderOf r.bytes.toList :: (← decodeTail _)) = _
    rw [ih]
    rfl

theorem decodeAddOrderBatch_msgs : ∀ records, decodeAddOrderBatch (msgs records) = .ok (orders records)
  | r0 :: r1 :: r2 :: r3 :: records => by
    have hfour := decodeFour_eq r0.length_bytes r1.length_bytes r2.length_bytes r3.length_bytes
    have hrest := decodeAddOrderBatch_msgs records
    show (do
      let four ← (decodeFour #v[r0.bytes.toList, r1.bytes.toList, r2.bytes.toList, r3.bytes.toList]).mapError BatchFailure.ub
      return four ++ (← decodeAddOrderBatch (msgs records))) = _
    rw [hfour, hrest]
    rfl
  | [] => rfl
  | [r0] => decodeTail_msgs [r0]
  | [r0, r1] => decodeTail_msgs [r0, r1]
  | [r0, r1, r2] => decodeTail_msgs [r0, r1, r2]

end AddOrderRecord

/-- **The vectorised decoder is the scalar one**, record after record, for every number of records. -/
theorem decodeAddOrderBatch_eq (records : List AddOrderRecord) :
    ∃ out, decodeAddOrderBatch (AddOrderRecord.msgs records) = .ok out ∧
      (AddOrderRecord.msgs records).mapM decodeAddOrderScalar = .ok out :=
  ⟨_, AddOrderRecord.decodeAddOrderBatch_msgs records, AddOrderRecord.mapM_decodeAddOrderScalar records⟩

end Itch

end MatchingEngine
