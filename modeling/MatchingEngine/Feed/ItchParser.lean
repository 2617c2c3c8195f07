import MatchingEngine.Feed.ItchMessages
import MatchingEngine.Feed.MoldUdp64
import MatchingEngine.Foundation.Outcome

/-!
# The ITCH 5.0 parser

`cpp/feed/itch_parser.cpp`: a record is read field by field, each at its own offset, if its type
is known and it is long enough. Reads are checked (`bytesAt`), and every offset is the source's.

`Message.write` writes the fields of a message one after the other, after its type: it knows
no offsets. That writing gives back the record (`parseMessage_exact`) is then that the offsets of
each type leave no gap and no overlap.
-/

namespace MatchingEngine

open Foundation

namespace Itch

/-! ### Primitives -/

/-- `be16`. -/
def be16 (p : Bytes) : UInt16 := (((p.getD 0 0).toUInt32 <<< 8) ||| (p.getD 1 0).toUInt32).toUInt16

/-- `be32`. -/
def be32 (p : Bytes) : UInt32 :=
  ((p.getD 0 0).toUInt32 <<< 24) ||| ((p.getD 1 0).toUInt32 <<< 16) ||| ((p.getD 2 0).toUInt32 <<< 8) |||
    (p.getD 3 0).toUInt32

/-- `be48`: the round is that of `be64`. -/
def be48 (p : Bytes) : UInt64 := (p.take 6).foldl Moldudp64.shiftIn 0

/-- `be64`. -/
def be64 (p : Bytes) : UInt64 := (p.take 8).foldl Moldudp64.shiftIn 0

/-- `read_alpha`. -/
def readAlpha (n : ℕ) (p : Bytes) : Alpha n := readArray n 0 p

/-- `data[offset]`. -/
def charAt (data : Bytes) (offset : ℕ) : Except Ub UInt8 := do .ok ((← bytesAt data offset 1).getD 0 0)

/-- `static_cast<char>`. -/
def toChar (b : UInt8) : Char := Char.ofNat b.toNat

/-- `read_common_header`. -/
def readCommonHeader (data : Bytes) : Except Ub CommonHeader := do
  .ok
    { stockLocate := be16 (← bytesAt data 1 2)
      trackingNumber := be16 (← bytesAt data 3 2)
      timestampNs := be48 (← bytesAt data 5 6) }

/-! ### Parsing -/

/-- `expected_length`. -/
def expectedLength : Char → ℕ
  | 'S' => 12
  | 'R' => 39
  | 'H' => 25
  | 'Y' => 20
  | 'L' => 26
  | 'V' => 35
  | 'W' => 12
  | 'K' => 28
  | 'J' => 35
  | 'h' => 21
  | 'A' => 36
  | 'F' => 40
  | 'E' => 31
  | 'C' => 36
  | 'X' => 23
  | 'D' => 19
  | 'U' => 35
  | 'P' => 44
  | 'Q' => 40
  | 'B' => 19
  | 'I' => 50
  | 'N' => 20
  | 'O' => 48
  | _ => 0

/-- `decode_add_order_scalar`. -/
def decodeAddOrderScalar (data : Bytes) : Except Ub AddOrderNoMPID := do
  .ok
    { h := ← readCommonHeader data
      orderRefNumber := be64 (← bytesAt data 11 8)
      buySellIndicator := ← charAt data 19
      shares := be32 (← bytesAt data 20 4)
      stock := readAlpha 8 (← bytesAt data 24 8)
      price := be32 (← bytesAt data 32 4) }

/-- The `switch` of `parse_message`. -/
def parseFields (data : Bytes) (h : CommonHeader) : Char → Except Ub (Option Message)
  | 'S' => do .ok (some (.systemEvent { h, eventCode := ← charAt data 11 }))
  | 'R' => do
    .ok (some (.stockDirectory
      { h
        stock := readAlpha 8 (← bytesAt data 11 8)
        marketCategory := ← charAt data 19
        financialStatusIndicator := ← charAt data 20
        roundLotSize := be32 (← bytesAt data 21 4)
        roundLotsOnly := ← charAt data 25
        issueClassification := ← charAt data 26
        issueSubtype := readAlpha 2 (← bytesAt data 27 2)
        authenticity := ← charAt data 29
        shortSaleThresholdIndicator := ← charAt data 30
        ipoFlag := ← charAt data 31
        luldReferencePriceTier := ← charAt data 32
        etpFlag := ← charAt data 33
        etpLeverageFactor := be32 (← bytesAt data 34 4)
        inverseIndicator := ← charAt data 38 }))
  | 'H' => do
    .ok (some (.stockTradingAction
      { h
        stock := readAlpha 8 (← bytesAt data 11 8)
        tradingState := ← charAt data 19
        reserved := ← charAt data 20
        reason := readAlpha 4 (← bytesAt data 21 4) }))
  | 'Y' => do
    .ok (some (.regSHORestriction
      { h
        stock := readAlpha 8 (← bytesAt data 11 8)
        regShoAction := ← charAt data 19 }))
  | 'L' => do
    .ok (some (.marketParticipantPosition
      { h
        mpid := readAlpha 4 (← bytesAt data 11 4)
        stock := readAlpha 8 (← bytesAt data 15 8)
        primaryMarketMaker := ← charAt data 23
        marketMakerMode := ← charAt data 24
        marketParticipantState := ← charAt data 25 }))
  | 'V' => do
    .ok (some (.mwcbDeclineLevel
      { h
        level1 := be64 (← bytesAt data 11 8)
        level2 := be64 (← bytesAt data 19 8)
        level3 := be64 (← bytesAt data 27 8) }))
  | 'W' => do .ok (some (.mwcbStatus { h, breachedLevel := ← charAt data 11 }))
  | 'K' => do
    .ok (some (.ipoQuotingPeriodUpdate
      { h
        stock := readAlpha 8 (← bytesAt data 11 8)
        ipoQuotationReleaseTime := be32 (← bytesAt data 19 4)
        ipoQuotationReleaseQualifier := ← charAt data 23
        ipoPrice := be32 (← bytesAt data 24 4) }))
  | 'J' => do
    .ok (some (.luldAuctionCollar
      { h
        stock := readAlpha 8 (← bytesAt data 11 8)
        auctionCollarReferencePrice := be32 (← bytesAt data 19 4)
        upperAuctionCollarPrice := be32 (← bytesAt data 23 4)
        lowerAuctionCollarPrice := be32 (← bytesAt data 27 4)
        auctionCollarExtension := be32 (← bytesAt data 31 4) }))
  | 'h' => do
    .ok (some (.operationalHalt
      { h
        stock := readAlpha 8 (← bytesAt data 11 8)
        marketCode := ← charAt data 19
        operationalHaltAction := ← charAt data 20 }))
  | 'A' => do .ok (some (.addOrderNoMPID (← decodeAddOrderScalar data)))
  | 'F' => do
    .ok (some (.addOrderMPID
      { h
        orderRefNumber := be64 (← bytesAt data 11 8)
        buySellIndicator := ← charAt data 19
        shares := be32 (← bytesAt data 20 4)
        stock := readAlpha 8 (← bytesAt data 24 8)
        price := be32 (← bytesAt data 32 4)
        attribution := readAlpha 4 (← bytesAt data 36 4) }))
  | 'E' => do
    .ok (some (.orderExecuted
      { h
        orderRefNumber := be64 (← bytesAt data 11 8)
        executedShares := be32 (← bytesAt data 19 4)
        matchNumber := be64 (← bytesAt data 23 8) }))
  | 'C' => do
    .ok (some (.orderExecutedWithPrice
      { h
        orderRefNumber := be64 (← bytesAt data 11 8)
        executedShares := be32 (← bytesAt data 19 4)
        matchNumber := be64 (← bytesAt data 23 8)
        printable := ← charAt data 31
        executionPrice := be32 (← bytesAt data 32 4) }))
  | 'X' => do
    .ok (some (.orderCancel
      { h
        orderRefNumber := be64 (← bytesAt data 11 8)
        canceledShares := be32 (← bytesAt data 19 4) }))
  | 'D' => do .ok (some (.orderDelete { h, orderRefNumber := be64 (← bytesAt data 11 8) }))
  | 'U' => do
    .ok (some (.orderReplace
      { h
        originalOrderRefNumber := be64 (← bytesAt data 11 8)
        newOrderRefNumber := be64 (← bytesAt data 19 8)
        shares := be32 (← bytesAt data 27 4)
        price := be32 (← bytesAt data 31 4) }))
  | 'P' => do
    .ok (some (.tradeNonCross
      { h
        orderRefNumber := be64 (← bytesAt data 11 8)
        buySellIndicator := ← charAt data 19
        shares := be32 (← bytesAt data 20 4)
        stock := readAlpha 8 (← bytesAt data 24 8)
        price := be32 (← bytesAt data 32 4)
        matchNumber := be64 (← bytesAt data 36 8) }))
  | 'Q' => do
    .ok (some (.crossTrade
      { h
        shares := be64 (← bytesAt data 11 8)
        stock := readAlpha 8 (← bytesAt data 19 8)
        crossPrice := be32 (← bytesAt data 27 4)
        matchNumber := be64 (← bytesAt data 31 8)
        crossType := ← charAt data 39 }))
  | 'B' => do .ok (some (.brokenTrade { h, matchNumber := be64 (← bytesAt data 11 8) }))
  | 'I' => do
    .ok (some (.noii
      { h
        pairedShares := be64 (← bytesAt data 11 8)
        imbalanceShares := be64 (← bytesAt data 19 8)
        imbalanceDirection := ← charAt data 27
        stock := readAlpha 8 (← bytesAt data 28 8)
        farPrice := be32 (← bytesAt data 36 4)
        nearPrice := be32 (← bytesAt data 40 4)
        currentReferencePrice := be32 (← bytesAt data 44 4)
        crossType := ← charAt data 48
        priceVariationIndicator := ← charAt data 49 }))
  | 'N' => do
    .ok (some (.rpii
      { h
        stock := readAlpha 8 (← bytesAt data 11 8)
        interestFlag := ← charAt data 19 }))
  | 'O' => do
    .ok (some (.directListingCapitalRaise
      { h
        stock := readAlpha 8 (← bytesAt data 11 8)
        openEligibilityStatus := ← charAt data 19
        minimumAllowablePrice := be32 (← bytesAt data 20 4)
        maximumAllowablePrice := be32 (← bytesAt data 24 4)
        nearExecutionPrice := be32 (← bytesAt data 28 4)
        nearExecutionTime := be64 (← bytesAt data 32 8)
        lowerPriceRangeCollar := be32 (← bytesAt data 40 4)
        upperPriceRangeCollar := be32 (← bytesAt data 44 4) }))
  | _ => .ok none

/-- `parse_message`, with `none` for `std::nullopt`. -/
def parseMessage (data : Bytes) : Except Ub (Option Message) :=
  if data.length = 0 then .ok none
  else do
    let type := toChar (← charAt data 0)
    let need := expectedLength type
    if need = 0 ∨ data.length < need then .ok none
    else do
      let h ← readCommonHeader data
      parseFields data h type

/-! ### Records -/

/-- The type code of a message. -/
def Message.typeCode : Message → Char
  | .systemEvent _ => 'S'
  | .stockDirectory _ => 'R'
  | .stockTradingAction _ => 'H'
  | .regSHORestriction _ => 'Y'
  | .marketParticipantPosition _ => 'L'
  | .mwcbDeclineLevel _ => 'V'
  | .mwcbStatus _ => 'W'
  | .ipoQuotingPeriodUpdate _ => 'K'
  | .luldAuctionCollar _ => 'J'
  | .operationalHalt _ => 'h'
  | .addOrderNoMPID _ => 'A'
  | .addOrderMPID _ => 'F'
  | .orderExecuted _ => 'E'
  | .orderExecutedWithPrice _ => 'C'
  | .orderCancel _ => 'X'
  | .orderDelete _ => 'D'
  | .orderReplace _ => 'U'
  | .tradeNonCross _ => 'P'
  | .crossTrade _ => 'Q'
  | .brokenTrade _ => 'B'
  | .noii _ => 'I'
  | .rpii _ => 'N'
  | .directListingCapitalRaise _ => 'O'

/-- The known type codes. -/
def typeCodes : List Char :=
  ['S', 'R', 'H', 'Y', 'L', 'V', 'W', 'K', 'J', 'h', 'A', 'F', 'E', 'C', 'X', 'D', 'U', 'P', 'Q', 'B', 'I', 'N', 'O']

/-- A field of one character. -/
def put8 (c : UInt8) : Bytes := [c]

/-- A field of two bytes. -/
def put16 (v : UInt16) : Bytes := writeBack 2 v.toNat []

/-- A field of four bytes. -/
def put32 (v : UInt32) : Bytes := writeBack 4 v.toNat []

/-- A field of six bytes. -/
def put48 (v : UInt64) : Bytes := writeBack 6 v.toNat []

/-- A field of eight bytes. -/
def put64 (v : UInt64) : Bytes := writeBack 8 v.toNat []

/-- A field of text. -/
def putAlpha {n : ℕ} (a : Alpha n) : Bytes := a.toList

/-- What every record begins with: its type, and the common header. -/
def CommonHeader.write (h : CommonHeader) (type : Char) : Bytes :=
  put8 (UInt8.ofNat type.toNat) ++ put16 h.stockLocate ++ put16 h.trackingNumber ++ put48 h.timestampNs

/-- The record of a message: its fields, in the order of their declaration. -/
def Message.write : Message → Bytes
  | .systemEvent m => m.h.write 'S' ++ put8 m.eventCode
  | .stockDirectory m =>
    m.h.write 'R' ++ putAlpha m.stock ++ put8 m.marketCategory ++ put8 m.financialStatusIndicator ++
      put32 m.roundLotSize ++ put8 m.roundLotsOnly ++ put8 m.issueClassification ++ putAlpha m.issueSubtype ++
      put8 m.authenticity ++ put8 m.shortSaleThresholdIndicator ++ put8 m.ipoFlag ++
      put8 m.luldReferencePriceTier ++ put8 m.etpFlag ++ put32 m.etpLeverageFactor ++ put8 m.inverseIndicator
  | .stockTradingAction m =>
    m.h.write 'H' ++ putAlpha m.stock ++ put8 m.tradingState ++ put8 m.reserved ++ putAlpha m.reason
  | .regSHORestriction m => m.h.write 'Y' ++ putAlpha m.stock ++ put8 m.regShoAction
  | .marketParticipantPosition m =>
    m.h.write 'L' ++ putAlpha m.mpid ++ putAlpha m.stock ++ put8 m.primaryMarketMaker ++
      put8 m.marketMakerMode ++ put8 m.marketParticipantState
  | .mwcbDeclineLevel m => m.h.write 'V' ++ put64 m.level1 ++ put64 m.level2 ++ put64 m.level3
  | .mwcbStatus m => m.h.write 'W' ++ put8 m.breachedLevel
  | .ipoQuotingPeriodUpdate m =>
    m.h.write 'K' ++ putAlpha m.stock ++ put32 m.ipoQuotationReleaseTime ++
      put8 m.ipoQuotationReleaseQualifier ++ put32 m.ipoPrice
  | .luldAuctionCollar m =>
    m.h.write 'J' ++ putAlpha m.stock ++ put32 m.auctionCollarReferencePrice ++
      put32 m.upperAuctionCollarPrice ++ put32 m.lowerAuctionCollarPrice ++ put32 m.auctionCollarExtension
  | .operationalHalt m =>
    m.h.write 'h' ++ putAlpha m.stock ++ put8 m.marketCode ++ put8 m.operationalHaltAction
  | .addOrderNoMPID m =>
    m.h.write 'A' ++ put64 m.orderRefNumber ++ put8 m.buySellIndicator ++ put32 m.shares ++
      putAlpha m.stock ++ put32 m.price
  | .addOrderMPID m =>
    m.h.write 'F' ++ put64 m.orderRefNumber ++ put8 m.buySellIndicator ++ put32 m.shares ++
      putAlpha m.stock ++ put32 m.price ++ putAlpha m.attribution
  | .orderExecuted m =>
    m.h.write 'E' ++ put64 m.orderRefNumber ++ put32 m.executedShares ++ put64 m.matchNumber
  | .orderExecutedWithPrice m =>
    m.h.write 'C' ++ put64 m.orderRefNumber ++ put32 m.executedShares ++ put64 m.matchNumber ++
      put8 m.printable ++ put32 m.executionPrice
  | .orderCancel m => m.h.write 'X' ++ put64 m.orderRefNumber ++ put32 m.canceledShares
  | .orderDelete m => m.h.write 'D' ++ put64 m.orderRefNumber
  | .orderReplace m =>
    m.h.write 'U' ++ put64 m.originalOrderRefNumber ++ put64 m.newOrderRefNumber ++ put32 m.shares ++ put32 m.price
  | .tradeNonCross m =>
    m.h.write 'P' ++ put64 m.orderRefNumber ++ put8 m.buySellIndicator ++ put32 m.shares ++
      putAlpha m.stock ++ put32 m.price ++ put64 m.matchNumber
  | .crossTrade m =>
    m.h.write 'Q' ++ put64 m.shares ++ putAlpha m.stock ++ put32 m.crossPrice ++ put64 m.matchNumber ++
      put8 m.crossType
  | .brokenTrade m => m.h.write 'B' ++ put64 m.matchNumber
  | .noii m =>
    m.h.write 'I' ++ put64 m.pairedShares ++ put64 m.imbalanceShares ++ put8 m.imbalanceDirection ++
      putAlpha m.stock ++ put32 m.farPrice ++ put32 m.nearPrice ++ put32 m.currentReferencePrice ++
      put8 m.crossType ++ put8 m.priceVariationIndicator
  | .rpii m => m.h.write 'N' ++ putAlpha m.stock ++ put8 m.interestFlag
  | .directListingCapitalRaise m =>
    m.h.write 'O' ++ putAlpha m.stock ++ put8 m.openEligibilityStatus ++ put32 m.minimumAllowablePrice ++
      put32 m.maximumAllowablePrice ++ put32 m.nearExecutionPrice ++ put64 m.nearExecutionTime ++
      put32 m.lowerPriceRangeCollar ++ put32 m.upperPriceRangeCollar

/-! ### A field is written back as it was read -/

section Fields

variable {p : Bytes}

theorem toNat_be16 (h : p.length = 2) : (be16 p).toNat = readFrom 0 p := by
  obtain ⟨a, b, rfl⟩ := List.length_eq_two.mp h
  rw [show be16 [a, b] = Moldudp64.getBe16 [a, b] from rfl, Moldudp64.toNat_getBe16]
  simp [readFrom]

theorem toNat_be32 (h : p.length = 4) : (be32 p).toNat = readFrom 0 p := by
  obtain ⟨a, p, rfl⟩ := List.exists_cons_of_length_eq_add_one h
  obtain ⟨b, p, rfl⟩ := List.exists_cons_of_length_eq_add_one (Nat.succ.inj h)
  obtain ⟨c, d, rfl⟩ := List.length_eq_two.mp (Nat.succ.inj (Nat.succ.inj h))
  have ha : a.toNat < 2 ^ 8 := a.toNat_lt
  have hb : b.toNat < 2 ^ 8 := b.toNat_lt
  have hc : c.toNat < 2 ^ 8 := c.toNat_lt
  have hd : d.toNat < 2 ^ 8 := d.toNat_lt
  have hshift : ∀ {x : UInt8} {k : UInt32}, k.toNat ≤ 24 → (x.toUInt32 <<< k).toNat = x.toNat <<< k.toNat := by
    intro x k hk
    have hx : x.toNat < 2 ^ 8 := x.toNat_lt
    have hpow : 2 ^ k.toNat ≤ 2 ^ 24 := Nat.pow_le_pow_right (by norm_num) hk
    rw [UInt32.toNat_shiftLeft, UInt8.toNat_toUInt32, Nat.mod_eq_of_lt (show k.toNat < 32 by omega), Nat.shiftLeft_eq]
    exact Nat.mod_eq_of_lt (lt_of_le_of_lt (Nat.mul_le_mul_left _ hpow) (by omega))
  have hread : readFrom 0 [a, b, c, d] = ((a.toNat * 256 + b.toNat) * 256 + c.toNat) * 256 + d.toNat := by
    simp [readFrom]
  have hbe : be32 [a, b, c, d] = (a.toUInt32 <<< 24) ||| (b.toUInt32 <<< 16) ||| (c.toUInt32 <<< 8) ||| d.toUInt32 := rfl
  -- each byte lies below the ones before it
  have hab : a.toNat <<< 24 ||| b.toNat <<< 16 = (a.toNat * 256 + b.toNat) <<< 16 := by
    rw [← Nat.shiftLeft_add_eq_or_of_lt (show b.toNat <<< 16 < 2 ^ 24 by rw [Nat.shiftLeft_eq]; omega)]
    simp only [Nat.shiftLeft_eq]
    omega
  have habc : (a.toNat * 256 + b.toNat) <<< 16 ||| c.toNat <<< 8 = ((a.toNat * 256 + b.toNat) * 256 + c.toNat) <<< 8 := by
    rw [← Nat.shiftLeft_add_eq_or_of_lt (show c.toNat <<< 8 < 2 ^ 16 by rw [Nat.shiftLeft_eq]; omega)]
    simp only [Nat.shiftLeft_eq]
    omega
  rw [hbe, hread, UInt32.toNat_or, UInt32.toNat_or, UInt32.toNat_or, hshift (by decide), hshift (by decide),
    hshift (by decide), UInt8.toNat_toUInt32]
  show a.toNat <<< 24 ||| b.toNat <<< 16 ||| c.toNat <<< 8 ||| d.toNat = _
  rw [hab, habc, ← Nat.shiftLeft_add_eq_or_of_lt hd, Nat.shiftLeft_eq]

theorem toNat_be48 (h : p.length = 6) : (be48 p).toNat = readFrom 0 p := by
  have hlt := readFrom_lt p
  rw [h] at hlt
  rw [be48, List.take_of_length_le h.le, Moldudp64.toNat_foldl_shiftIn]
  exact Nat.mod_eq_of_lt (lt_trans hlt (by norm_num))

theorem put16_be16 (h : p.length = 2) : put16 (be16 p) = p := by
  have := writeBack_readFrom 0 p []
  rwa [h, List.append_nil, ← toNat_be16 h] at this

theorem put32_be32 (h : p.length = 4) : put32 (be32 p) = p := by
  have := writeBack_readFrom 0 p []
  rwa [h, List.append_nil, ← toNat_be32 h] at this

theorem put48_be48 (h : p.length = 6) : put48 (be48 p) = p := by
  have := writeBack_readFrom 0 p []
  rwa [h, List.append_nil, ← toNat_be48 h] at this

theorem put64_be64 (h : p.length = 8) : put64 (be64 p) = p := by
  have := Moldudp64.putBe64_getBe64 h
  rwa [Moldudp64.putBe64, Moldudp64.putLoop_eq] at this

theorem put8_getD (h : p.length = 1) : put8 (p.getD 0 0) = p := by
  obtain ⟨a, rfl⟩ := List.length_eq_one_iff.mp h
  rfl

theorem putAlpha_readAlpha {n : ℕ} (h : p.length = n) : putAlpha (readAlpha n p) = p := by
  rw [putAlpha, readAlpha, toList_readArray 0 h.ge, List.take_of_length_le h.le]

end Fields

/-! ### The offsets of each type -/

section Offsets

variable {data : Bytes} {offset : ℕ}

theorem length_slice {n : ℕ} (h : offset + n ≤ data.length) : ((data.drop offset).take n).length = n := by
  rw [List.length_take, List.length_drop]
  omega

/-- A character, where the record has one. -/
theorem charAt_ok (h : offset + 1 ≤ data.length) :
    charAt data offset = .ok (((data.drop offset).take 1).getD 0 0) := by
  rw [charAt, bytesAt_ok h]
  rfl

theorem put8_slice (h : offset + 1 ≤ data.length) :
    put8 (((data.drop offset).take 1).getD 0 0) = (data.drop offset).take 1 := put8_getD (length_slice h)

theorem put16_slice (h : offset + 2 ≤ data.length) :
    put16 (be16 ((data.drop offset).take 2)) = (data.drop offset).take 2 := put16_be16 (length_slice h)

theorem put32_slice (h : offset + 4 ≤ data.length) :
    put32 (be32 ((data.drop offset).take 4)) = (data.drop offset).take 4 := put32_be32 (length_slice h)

theorem put48_slice (h : offset + 6 ≤ data.length) :
    put48 (be48 ((data.drop offset).take 6)) = (data.drop offset).take 6 := put48_be48 (length_slice h)

theorem put64_slice (h : offset + 8 ≤ data.length) :
    put64 (be64 ((data.drop offset).take 8)) = (data.drop offset).take 8 := put64_be64 (length_slice h)

theorem putAlpha_slice {n : ℕ} (h : offset + n ≤ data.length) :
    putAlpha (readAlpha n ((data.drop offset).take n)) = (data.drop offset).take n := putAlpha_readAlpha (length_slice h)

/-- A byte is told from the character that it is taken for. -/
theorem ofNat_toChar (b : UInt8) : UInt8.ofNat (toChar b).toNat = b := by
  have hb := b.toNat_lt
  have hvalid : b.toNat.isValidChar := Or.inl (by omega)
  have hn : (toChar b).toNat = b.toNat := by
    rw [toChar, Char.ofNat, dif_pos hvalid]
    rfl
  rw [hn, UInt8.ofNat_toNat]

/-- The common header, and the bytes that it is read from. -/
theorem readCommonHeader_spec (data : Bytes) (h : 11 ≤ data.length) :
    ∃ hdr, readCommonHeader data = .ok hdr ∧ ∀ type, toChar (((data.drop 0).take 1).getD 0 0) = type →
      hdr.write type = data.take 11 := by
  refine ⟨_, by simp (disch := omega) only [readCommonHeader, bytesAt_ok, ok_bind]; rfl, ?_⟩
  rintro type rfl
  have hfirst : (data.drop 0).take 1 = data.take 1 := by rw [List.drop_zero]
  rw [CommonHeader.write, ofNat_toChar, put8_slice (show 0 + 1 ≤ data.length by omega), hfirst]
  simp (disch := omega) only [put16_slice, put48_slice, ← List.take_add, Nat.reduceAdd]

/-- **The fields of each type tile its record.** -/
theorem parseFields_spec {hdr : CommonHeader} {type : Char} (hknown : expectedLength type ≠ 0)
    (hlen : expectedLength type ≤ data.length) (hread : readCommonHeader data = .ok hdr)
    (hwrite : hdr.write type = data.take 11) :
    ∃ m, parseFields data hdr type = .ok (some m) ∧ m.typeCode = type ∧ m.write = data.take (expectedLength type) := by
  unfold parseFields
  split
  case h_24 =>
    refine absurd ?_ hknown
    unfold expectedLength
    split <;> first | rfl | contradiction
  all_goals
    simp only [expectedLength] at hlen
    simp (disch := omega) only [decodeAddOrderScalar, hread, charAt_ok, bytesAt_ok, ok_bind]
    refine ⟨_, rfl, rfl, ?_⟩
    simp (disch := omega) only [Message.write, hwrite, put8_slice, put32_slice, put64_slice, putAlpha_slice,
      ← List.take_add, Nat.reduceAdd, expectedLength]

/-! ### Nothing else is read -/

/-- A read that stays in front of an end does not see what is behind it. -/
theorem bytesAt_take {n k : ℕ} (h : offset + n ≤ k) (hk : k ≤ data.length) :
    bytesAt (data.take k) offset n = bytesAt data offset n := by
  rw [bytesAt_ok (show offset + n ≤ (data.take k).length by rw [List.length_take]; omega), bytesAt_ok (by omega),
    List.drop_take, List.take_take, Nat.min_eq_left (by omega)]

/-- **The fields of a record are read from the record.** -/
theorem parseFields_take {hdr : CommonHeader} {type : Char} (hlen : expectedLength type ≤ data.length) :
    parseFields (data.take (expectedLength type)) hdr type = parseFields data hdr type := by
  unfold parseFields
  split
  case h_24 => rfl
  all_goals
    simp only [expectedLength] at hlen
    simp (disch := omega) only [expectedLength, decodeAddOrderScalar, readCommonHeader, charAt, bytesAt_take]

/-! ### Parsing -/

theorem expectedLength_ge {type : Char} (h : expectedLength type ≠ 0) : 12 ≤ expectedLength type := by
  unfold expectedLength at h ⊢
  split at h <;> first | decide | exact absurd rfl h

theorem expectedLength_ne_zero_iff {type : Char} : expectedLength type ≠ 0 ↔ type ∈ typeCodes := by
  constructor
  · intro h
    unfold expectedLength at h
    split at h <;> first | decide | exact absurd rfl h
  · intro h
    simp only [typeCodes, List.mem_cons, List.not_mem_nil, or_false] at h
    rcases h with rfl | rfl | rfl | rfl | rfl | rfl | rfl | rfl | rfl | rfl | rfl | rfl | rfl | rfl | rfl | rfl | rfl |
      rfl | rfl | rfl | rfl | rfl | rfl <;> decide

/-- What `parse_message` does with a record of a known type. -/
theorem parseMessage_eq {b : UInt8} (hb : charAt data 0 = .ok b) (hknown : expectedLength (toChar b) ≠ 0)
    (hlen : expectedLength (toChar b) ≤ data.length) :
    parseMessage data = readCommonHeader data >>= fun hdr => parseFields data hdr (toChar b) := by
  rw [parseMessage, if_neg (by omega), hb, ok_bind]
  dsimp only
  rw [if_neg (not_or.mpr ⟨hknown, Nat.not_lt.mpr hlen⟩)]

/-- **What follows a record does not matter.** -/
theorem parseMessage_take {b : UInt8} (hb : charAt data 0 = .ok b) (hknown : expectedLength (toChar b) ≠ 0)
    (hlen : expectedLength (toChar b) ≤ data.length) :
    parseMessage (data.take (expectedLength (toChar b))) = parseMessage data := by
  have hge := expectedLength_ge hknown
  have hb' : charAt (data.take (expectedLength (toChar b))) 0 = .ok b := by
    rw [← hb]
    simp (disch := omega) only [charAt, bytesAt_take]
  have hhdr : readCommonHeader (data.take (expectedLength (toChar b))) = readCommonHeader data := by
    simp (disch := omega) only [readCommonHeader, bytesAt_take]
  have hlen' : expectedLength (toChar b) ≤ (data.take (expectedLength (toChar b))).length := by
    rw [List.length_take]
    exact le_min le_rfl hlen
  rw [parseMessage_eq hb' hknown hlen', parseMessage_eq hb hknown hlen, hhdr]
  congr 1
  funext hdr
  exact parseFields_take hlen

/-- **A record of a known type** is parsed to a message of that type, which is written as the record. -/
theorem parseMessage_record {b : UInt8} (hb : charAt data 0 = .ok b) (hknown : expectedLength (toChar b) ≠ 0)
    (hlen : expectedLength (toChar b) ≤ data.length) :
    ∃ m, parseMessage data = .ok (some m) ∧ m.typeCode = toChar b ∧ m.write = data.take (expectedLength (toChar b)) := by
  have hge := expectedLength_ge hknown
  obtain ⟨hdr, hread, hwrite⟩ := readCommonHeader_spec data (by omega)
  have hfirst : ((data.drop 0).take 1).getD 0 0 = b := by
    rw [charAt_ok (by omega)] at hb
    exact Except.ok.inj hb
  obtain ⟨m, hm, htype, hrecord⟩ := parseFields_spec hknown hlen hread (hwrite (toChar b) (by rw [hfirst]))
  refine ⟨m, ?_, htype, hrecord⟩
  rw [parseMessage_eq hb hknown hlen, hread, ok_bind, hm]

end Offsets

/-- The first byte. -/
theorem charAt_zero (b : UInt8) (rest : Bytes) : charAt (b :: rest) 0 = .ok b :=
  charAt_ok (show 0 + 1 ≤ (b :: rest).length by simp)

/-- What a buffer is parsed to. -/
theorem parseMessage_spec (data : Bytes) :
    ∃ r, parseMessage data = .ok r ∧
      (r.isSome ↔ ∃ b rest, data = b :: rest ∧ toChar b ∈ typeCodes ∧ expectedLength (toChar b) ≤ data.length) ∧
      ∀ m, r = some m → data.head?.map toChar = some m.typeCode ∧ m.write = data.take (expectedLength m.typeCode) ∧
        ∀ data', data.take (expectedLength m.typeCode) <+: data' → parseMessage data' = .ok (some m) := by
  cases data with
  | nil =>
    refine ⟨none, rfl, iff_of_false (by simp) ?_, by simp⟩
    rintro ⟨b, rest, h, -⟩
    cases h
  | cons b rest =>
    have hb := charAt_zero b rest
    by_cases hrecord : expectedLength (toChar b) ≠ 0 ∧ expectedLength (toChar b) ≤ (b :: rest).length
    · obtain ⟨hknown, hlen⟩ := hrecord
      obtain ⟨m, hm, htype, hwrite⟩ := parseMessage_record hb hknown hlen
      refine ⟨some m, hm, iff_of_true rfl ⟨b, rest, rfl, expectedLength_ne_zero_iff.mp hknown, hlen⟩, ?_⟩
      intro m' hm'
      obtain rfl := Option.some.inj hm'
      refine ⟨by rw [htype]; rfl, by rw [htype, hwrite], fun data' hprefix => ?_⟩
      rw [htype] at hprefix
      have hge := expectedLength_ge hknown
      have hreclen : ((b :: rest).take (expectedLength (toChar b))).length = expectedLength (toChar b) := by
        rw [List.length_take, Nat.min_eq_left hlen]
      have hlen' : expectedLength (toChar b) ≤ data'.length := hreclen ▸ hprefix.length_le
      have hsame : data'.take (expectedLength (toChar b)) = (b :: rest).take (expectedLength (toChar b)) := by
        have := List.prefix_iff_eq_take.mp hprefix
        rw [hreclen] at this
        exact this.symm
      have hb' : charAt data' 0 = .ok b := by
        have h0 : charAt (data'.take (expectedLength (toChar b))) 0 = charAt data' 0 := by
          simp (disch := omega) only [charAt, bytesAt_take]
        have h1 : charAt ((b :: rest).take (expectedLength (toChar b))) 0 = charAt (b :: rest) 0 := by
          simp (disch := omega) only [charAt, bytesAt_take]
        rw [← h0, hsame, h1, hb]
      rw [← parseMessage_take hb' hknown hlen', hsame, parseMessage_take hb hknown hlen, hm]
    · refine ⟨none, ?_, iff_of_false (by simp) ?_, by simp⟩
      · rw [parseMessage, if_neg (by simp), hb, ok_bind]
        dsimp only
        rw [if_pos (by omega)]
      · rintro ⟨b', rest', hdata, hknown, hlen⟩
        obtain ⟨rfl, rfl⟩ := List.cons.inj hdata
        exact hrecord ⟨expectedLength_ne_zero_iff.mpr hknown, hlen⟩

/-- **The parser loses and invents nothing.** It always ends without a read outside of the buffer. It gives a
message if and only if the first byte is one of the known type codes and the buffer is as long as that type's
records. The message is of that type, is the same for every buffer that begins with the record, even if nothing
follows it, and is written as the record. Two records of one type that give equal messages are equal. -/
theorem parseMessage_exact :
    (∀ data : Bytes, ∃ r, parseMessage data = .ok r ∧
      (r.isSome ↔ ∃ b rest, data = b :: rest ∧ toChar b ∈ typeCodes ∧ expectedLength (toChar b) ≤ data.length) ∧
      ∀ m, r = some m → data.head?.map toChar = some m.typeCode ∧ m.write = data.take (expectedLength m.typeCode) ∧
        ∀ data', data.take (expectedLength m.typeCode) <+: data' → parseMessage data' = .ok (some m)) ∧
    ∀ (data data' : Bytes) (m : Message), parseMessage data = .ok (some m) → parseMessage data' = .ok (some m) →
      data.take (expectedLength m.typeCode) = data'.take (expectedLength m.typeCode) := by
  refine ⟨parseMessage_spec, fun data data' m hm hm' => ?_⟩
  have hwrite : ∀ {d : Bytes}, parseMessage d = .ok (some m) → m.write = d.take (expectedLength m.typeCode) := by
    intro d hd
    obtain ⟨r, hr, -, hsome⟩ := parseMessage_spec d
    rw [hd] at hr
    exact (hsome m (Except.ok.inj hr).symm).2.1
  rw [← hwrite hm, ← hwrite hm']

/-- The record that deletes order 9. -/
def deleteRecord : Bytes := [68, 0, 1, 0, 2, 0, 0, 0, 0, 0, 3, 0, 0, 0, 0, 0, 0, 0, 9]

/-- The record, and the record with a byte behind it. -/
theorem parseMessage_exact_delete :
    ∃ m, parseMessage (deleteRecord ++ [255]) = .ok (some m) ∧
      (deleteRecord ++ [255]).take (expectedLength m.typeCode) = deleteRecord.take (expectedLength m.typeCode) :=
  ⟨.orderDelete ⟨⟨1, 2, 3⟩, 9⟩, by decide,
    parseMessage_exact.2 (deleteRecord ++ [255]) deleteRecord (.orderDelete ⟨⟨1, 2, 3⟩, 9⟩) (by decide) (by decide)⟩

end Itch

end MatchingEngine
