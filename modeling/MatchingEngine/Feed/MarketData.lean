import MatchingEngine.Feed.ItchMessages
import MatchingEngine.Feed.MoldUdp64

/-!
# Market data events

`cpp/feed/market_data.h`: the public feed. An event says what happened to one order of
one symbol, and travels as a record of 50 bytes. `decode_encode` says that a record is
read back as the event it was written from.
-/

namespace MatchingEngine.Mdfeed

open Foundation Moldudp64

/-- `enum class EventType : uint8_t`. A byte off the wire may name none of the five. -/
inductive EventType where
  /-- `Add = 'A'`. -/
  | add
  /-- `Cancel = 'X'`. -/
  | cancel
  /-- `Delete = 'D'`. -/
  | delete
  /-- `Trade = 'T'`. -/
  | trade
  /-- `Replace = 'R'`. -/
  | replace
  /-- Any other value of the underlying type. -/
  | unnamed (code : UInt8) (h : code ∉ [65, 88, 68, 84, 82])
  deriving DecidableEq

/-- The byte of an event type. -/
def EventType.code : EventType → UInt8
  | .add => 65
  | .cancel => 88
  | .delete => 68
  | .trade => 84
  | .replace => 82
  | .unnamed code _ => code

/-- The event type of a byte. -/
def EventType.ofCode (code : UInt8) : EventType :=
  if h : code ∈ [65, 88, 68, 84, 82] then
    if code = 65 then .add
    else if code = 88 then .cancel
    else if code = 68 then .delete
    else if code = 84 then .trade
    else .replace
  else .unnamed code h

@[simp] theorem EventType.ofCode_code (t : EventType) : ofCode t.code = t := by
  cases t with
  | unnamed code h => exact dif_neg h
  | _ => rfl

/-- `struct MDEvent`. -/
structure MDEvent where
  /-- `type`. -/
  type : EventType
  /-- `side`. -/
  side : Side
  /-- `timestamp_ns`. -/
  timestampNs : UInt64 := 0
  /-- `order_id`. -/
  orderId : OrderId := 0
  /-- `new_order_id`, of a Replace or the taker of a Trade. -/
  newOrderId : OrderId := 0
  /-- `symbol`, padded with spaces. -/
  symbol : Vector UInt8 8
  /-- `price`. -/
  price : ℤ := 0
  /-- `qty`. -/
  qty : Quantity := 0
  deriving DecidableEq

/-- `symbol_str`. -/
def symbolStr (raw : Vector UInt8 8) : Bytes := trimEnd space raw.toList

/-- `symbol_pad`. -/
def symbolPad (s : Bytes) : Vector UInt8 8 := padTo 8 space s

@[simp] theorem symbolPad_symbolStr (raw : Vector UInt8 8) : symbolPad (symbolStr raw) = raw :=
  padTo_trimEnd 8 space raw

/-! ### The record -/

/-- `kRecordLen`. -/
def kRecordLen : ℕ := 50

/-- The byte of a side. -/
def sideByte : Side → UInt8
  | .buy => 66
  | .sell => 83

/-- The side of a byte: everything but `'B'` is a sell. -/
def sideOfByte (b : UInt8) : Side := if b = 66 then .buy else .sell

@[simp] theorem sideOfByte_sideByte (s : Side) : sideOfByte (sideByte s) = s := by cases s <;> rfl

/-- `static_cast<uint64_t>` of a price: its bits. -/
def priceBits (p : ℤ) : UInt64 := UInt64.ofNat (p % 2 ^ 64).toNat

/-- `static_cast<Price>` of a word. -/
def priceOfBits (b : UInt64) : ℤ := if b.toNat < 2 ^ 63 then b.toNat else b.toNat - 2 ^ 64

theorem priceOfBits_priceBits {p : ℤ} (h : InI64 p) : priceOfBits (priceBits p) = p := by
  have hp : -2 ^ 63 ≤ p ∧ p < 2 ^ 63 := h
  have hb : (priceBits p).toNat = (p % 2 ^ 64).toNat :=
    UInt64.toNat_ofNat_of_lt' (by show (p % 2 ^ 64).toNat < 2 ^ 64; omega)
  unfold priceOfBits
  rw [hb]
  split_ifs <;> omega

/-- `encode`. -/
def encode (e : MDEvent) : Bytes :=
  [e.type.code, sideByte e.side] ++ (putBe64 e.timestampNs ++ (putBe64 e.orderId ++ (putBe64 e.newOrderId ++
    (e.symbol.toList ++ (putBe64 (priceBits e.price) ++ putBe64 e.qty)))))

/-- `decode`. -/
def decode (data : Bytes) : Option MDEvent :=
  if data.length ≠ kRecordLen then none
  else some
    { type := .ofCode (data.getD 0 0)
      side := sideOfByte (data.getD 1 0)
      timestampNs := getBe64 (data.drop 2)
      orderId := getBe64 (data.drop 10)
      newOrderId := getBe64 (data.drop 18)
      symbol := readArray 8 0 (data.drop 26)
      price := priceOfBits (getBe64 (data.drop 34))
      qty := getBe64 (data.drop 42) }

@[simp] theorem length_encode (e : MDEvent) : (encode e).length = kRecordLen := by
  simp [encode, kRecordLen]

/-- **A record is read back** as the event it was written from. -/
theorem decode_encode {e : MDEvent} (h : InI64 e.price) : decode (encode e) = some e := by
  -- where each field begins
  have h₂ : (encode e).drop 2 = putBe64 e.timestampNs ++ _ := rfl
  have h₁₀ : (encode e).drop 10 = putBe64 e.orderId ++ _ := drop_field h₂ (length_putBe64 e.timestampNs)
  have h₁₈ : (encode e).drop 18 = putBe64 e.newOrderId ++ _ := drop_field h₁₀ (length_putBe64 e.orderId)
  have h₂₆ : (encode e).drop 26 = e.symbol.toList ++ _ := drop_field h₁₈ (length_putBe64 e.newOrderId)
  have h₃₄ : (encode e).drop 34 = putBe64 (priceBits e.price) ++ _ := drop_field h₂₆ e.symbol.length_toList
  have h₄₂ : (encode e).drop 42 = putBe64 e.qty := drop_field h₃₄ (length_putBe64 (priceBits e.price))
  have hqty := getBe64_putBe64 e.qty []
  rw [List.append_nil] at hqty
  have htype : EventType.ofCode ((encode e).getD 0 0) = e.type := EventType.ofCode_code e.type
  have hside : sideOfByte ((encode e).getD 1 0) = e.side := sideOfByte_sideByte e.side
  rw [decode, if_neg (not_not.mpr (length_encode e)), htype, hside, h₂, h₁₀, h₁₈, h₂₆, h₃₄, h₄₂, getBe64_putBe64,
    getBe64_putBe64, getBe64_putBe64, getBe64_putBe64, hqty, readArray_toList_append, priceOfBits_priceBits h]

end MatchingEngine.Mdfeed
