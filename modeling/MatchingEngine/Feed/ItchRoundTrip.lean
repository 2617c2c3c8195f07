import MatchingEngine.Feed.ItchParser

/-!
# Writing a message and parsing it

The other direction of the round trip. `Message.write` is told by its fields: they have fixed
widths, so two records that are equal are equal field by field. The parser's fields are written as
the record, so they are those that the record was written from.

On the wire a timestamp has 48 bits. A message that is to come back has no more (`Stamped`).
-/

namespace MatchingEngine

open Foundation

namespace Itch

/-! ### The last field of a record -/

section Fields

variable {s s' : Bytes}

theorem writeBack_inj {k a b : ℕ} (ha : a < 256 ^ k) (hb : b < 256 ^ k) (h : writeBack k a [] = writeBack k b []) : a = b := by
  rw [← readFrom_writeBack_of_lt ha, h, readFrom_writeBack_of_lt hb]

theorem append_put8_inj {a b : UInt8} : s ++ put8 a = s' ++ put8 b ↔ s = s' ∧ a = b := by
  rw [List.append_eq_append_iff_of_size_eq_right (show (put8 a).length = (put8 b).length from rfl), put8, put8,
    List.singleton_inj]

theorem append_put32_inj {a b : UInt32} : s ++ put32 a = s' ++ put32 b ↔ s = s' ∧ a = b := by
  rw [List.append_eq_append_iff_of_size_eq_right (by rw [put32, put32, length_writeBack, length_writeBack])]
  refine and_congr_right fun _ => ⟨fun h => UInt32.toNat_inj.mp ?_, congrArg put32⟩
  exact writeBack_inj a.toNat_lt b.toNat_lt h

theorem append_put64_inj {a b : UInt64} : s ++ put64 a = s' ++ put64 b ↔ s = s' ∧ a = b := by
  rw [List.append_eq_append_iff_of_size_eq_right (by rw [put64, put64, length_writeBack, length_writeBack])]
  refine and_congr_right fun _ => ⟨fun h => UInt64.toNat_inj.mp ?_, congrArg put64⟩
  exact writeBack_inj a.toNat_lt b.toNat_lt h

theorem append_putAlpha_inj {n : ℕ} {a b : Alpha n} : s ++ putAlpha a = s' ++ putAlpha b ↔ s = s' ∧ a = b := by
  rw [List.append_eq_append_iff_of_size_eq_right (by simp [putAlpha])]
  exact and_congr_right fun _ => Vector.toList_inj

/-- The common header, if its timestamp has 48 bits. -/
theorem header_write_inj {h h' : CommonHeader} {type : Char} (ht : h.timestampNs.toNat < 2 ^ 48)
    (ht' : h'.timestampNs.toNat < 2 ^ 48) (hw : h.write type = h'.write type) : h = h' := by
  rw [CommonHeader.write, CommonHeader.write] at hw
  obtain ⟨hw, htime⟩ := List.append_inj' hw (by rw [put48, put48, length_writeBack, length_writeBack])
  obtain ⟨hw, htrack⟩ := List.append_inj' hw (by rw [put16, put16, length_writeBack, length_writeBack])
  obtain ⟨-, hlocate⟩ := List.append_inj' hw (by rw [put16, put16, length_writeBack, length_writeBack])
  have htime := UInt64.toNat_inj.mp (writeBack_inj ht ht' htime)
  have htrack := UInt16.toNat_inj.mp (writeBack_inj h.trackingNumber.toNat_lt h'.trackingNumber.toNat_lt htrack)
  have hlocate := UInt16.toNat_inj.mp (writeBack_inj h.stockLocate.toNat_lt h'.stockLocate.toNat_lt hlocate)
  cases h
  cases h'
  simp_all

end Fields

/-! ### Messages -/

/-- The common header of a message. -/
def Message.header : Message → CommonHeader
  | .systemEvent m => m.h
  | .stockDirectory m => m.h
  | .stockTradingAction m => m.h
  | .regSHORestriction m => m.h
  | .marketParticipantPosition m => m.h
  | .mwcbDeclineLevel m => m.h
  | .mwcbStatus m => m.h
  | .ipoQuotingPeriodUpdate m => m.h
  | .luldAuctionCollar m => m.h
  | .operationalHalt m => m.h
  | .addOrderNoMPID m => m.h
  | .addOrderMPID m => m.h
  | .orderExecuted m => m.h
  | .orderExecutedWithPrice m => m.h
  | .orderCancel m => m.h
  | .orderDelete m => m.h
  | .orderReplace m => m.h
  | .tradeNonCross m => m.h
  | .crossTrade m => m.h
  | .brokenTrade m => m.h
  | .noii m => m.h
  | .rpii m => m.h
  | .directListingCapitalRaise m => m.h

/-- Its timestamp has 48 bits. -/
def Message.Stamped (m : Message) : Prop := m.header.timestampNs.toNat < 2 ^ 48

instance (m : Message) : Decidable m.Stamped := inferInstanceAs (Decidable (_ < _))

theorem length_header_write (h : CommonHeader) (type : Char) : (h.write type).length = 11 := by
  simp [CommonHeader.write, put8, put16, put48]

/-- A record has the length of its type. -/
theorem length_write (m : Message) : m.write.length = expectedLength m.typeCode := by
  cases m <;> simp [Message.write, Message.typeCode, expectedLength, length_header_write, put8, put32, put64, putAlpha]

/-- It begins with the common header. -/
theorem take_write (m : Message) : m.write.take 11 = m.header.write m.typeCode := by
  cases m <;>
    simp only [Message.write, Message.header, Message.typeCode, List.append_assoc] <;>
    exact List.take_left' (length_header_write ..)

theorem typeCode_mem (m : Message) : m.typeCode ∈ typeCodes := by
  cases m <;> simp [Message.typeCode, typeCodes]

/-- A type code is one byte. -/
theorem toChar_ofNat_typeCode (m : Message) : toChar (UInt8.ofNat m.typeCode.toNat) = m.typeCode := by
  cases m <;> rfl

theorem head_write (m : Message) : charAt m.write 0 = .ok (UInt8.ofNat m.typeCode.toNat) := by
  have h := take_write m
  cases hw : m.write with
  | nil =>
    rw [hw] at h
    cases h
  | cons b rest =>
    rw [hw] at h
    rw [charAt_zero, (List.cons.inj h).1]

/-- A header that has been read has a timestamp of 48 bits. -/
theorem readCommonHeader_stamped {data : Bytes} {hdr : CommonHeader} (hlen : 11 ≤ data.length)
    (h : readCommonHeader data = .ok hdr) : hdr.timestampNs.toNat < 2 ^ 48 := by
  simp (disch := omega) only [readCommonHeader, bytesAt_ok, ok_bind] at h
  obtain rfl := Except.ok.inj h
  have hslice : ((data.drop 5).take 6).length = 6 := length_slice (by omega)
  have hlt := readFrom_lt ((data.drop 5).take 6)
  rw [hslice] at hlt
  dsimp only
  rw [toNat_be48 hslice]
  exact hlt

/-- The header of a record. -/
theorem readCommonHeader_write {m : Message} (hm : m.Stamped) : readCommonHeader m.write = .ok m.header := by
  have hlen : 12 ≤ m.write.length := by
    rw [length_write]
    exact expectedLength_ge (expectedLength_ne_zero_iff.mpr (typeCode_mem m))
  obtain ⟨hdr, hread, hwrite⟩ := readCommonHeader_spec m.write (by omega)
  have htype : toChar (((m.write.drop 0).take 1).getD 0 0) = m.typeCode := by
    have := head_write m
    rw [charAt_ok (by omega)] at this
    rw [Except.ok.inj this, toChar_ofNat_typeCode]
  have hsame := hwrite m.typeCode htype
  rw [take_write] at hsame
  rw [hread, header_write_inj (readCommonHeader_stamped (by omega) hread) hm hsame]

/-- **The fields of a record** are those that it was written from. -/
theorem parseFields_write {m : Message} (hm : m.Stamped) :
    parseFields m.write m.header m.typeCode = .ok (some m) := by
  have hread := readCommonHeader_write hm
  obtain ⟨m', hparse, -, hwrite⟩ := parseFields_spec
    (expectedLength_ne_zero_iff.mpr (typeCode_mem m)) (length_write m).ge hread (take_write m).symm
  rw [List.take_of_length_le (length_write m).le] at hwrite
  suffices hsame : m' = m by rw [hparse, hsame]
  have hlen := length_write m
  generalize m.write = data at hparse hlen hread
  cases m
  all_goals
    simp only [Message.typeCode, expectedLength] at hlen
    simp (disch := omega) only [Message.typeCode, parseFields, decodeAddOrderScalar, hread, charAt_ok, bytesAt_ok,
      ok_bind] at hparse
    obtain rfl := Option.some.inj (Except.ok.inj hparse)
    simp only [Message.write, append_put8_inj, append_put32_inj, append_put64_inj, append_putAlpha_inj] at hwrite
    simp only [hwrite, Message.header]

/-- The header of a message that has been parsed is the one that has been read. -/
theorem parseFields_header {data : Bytes} {hdr : CommonHeader} {type : Char} {m : Message}
    (hlen : expectedLength type ≤ data.length) (hread : readCommonHeader data = .ok hdr)
    (h : parseFields data hdr type = .ok (some m)) : m.header = hdr := by
  unfold parseFields at h
  split at h
  case h_24 => cases Except.ok.inj h
  all_goals
    simp only [expectedLength] at hlen
    simp (disch := omega) only [decodeAddOrderScalar, hread, charAt_ok, bytesAt_ok, ok_bind] at h
    obtain rfl := Option.some.inj (Except.ok.inj h)
    rfl

/-- A message that has been parsed has a timestamp of 48 bits, and the buffer begins with its record. -/
theorem write_of_parseMessage {data : Bytes} {m : Message} (h : parseMessage data = .ok (some m)) :
    m.Stamped ∧ m.write <+: data := by
  obtain ⟨r, hr, hsome, hspec⟩ := parseMessage_spec data
  obtain rfl : some m = r := Except.ok.inj (h.symm.trans hr)
  obtain ⟨b, rest, rfl, hknown, hlen⟩ := hsome.mp rfl
  have hb := charAt_zero b rest
  have hne := expectedLength_ne_zero_iff.mpr hknown
  have hge := expectedLength_ge hne
  obtain ⟨hdr, hread, -⟩ := readCommonHeader_spec (b :: rest) (by omega)
  rw [parseMessage_eq hb hne hlen, hread, ok_bind] at h
  constructor
  · rw [Message.Stamped, parseFields_header hlen hread h]
    exact readCommonHeader_stamped (by omega) hread
  · rw [(hspec m rfl).2.1]
    exact List.take_prefix ..

/-- A record is parsed to the message that it was written from, whatever follows it. -/
theorem parseMessage_of_prefix {data : Bytes} {m : Message} (hm : m.Stamped) (h : m.write <+: data) :
    parseMessage data = .ok (some m) := by
  have hne := expectedLength_ne_zero_iff.mpr (typeCode_mem m)
  have hwrite : parseMessage m.write = .ok (some m) := by
    rw [parseMessage_eq (head_write m) (by rwa [toChar_ofNat_typeCode]) (by rw [toChar_ofNat_typeCode, length_write]),
      readCommonHeader_write hm, ok_bind, toChar_ofNat_typeCode, parseFields_write hm]
  obtain ⟨r, hr, -, hspec⟩ := parseMessage_spec m.write
  obtain rfl : some m = r := Except.ok.inj (hwrite.symm.trans hr)
  refine (hspec m rfl).2.2 data ?_
  rwa [List.take_of_length_le (length_write m).le]

/-- **The parser is the inverse of the writer**: it gives a message if and only if the message's timestamp has 48 bits
and the buffer begins with its record. -/
theorem parseMessage_iff (data : Bytes) (m : Message) :
    parseMessage data = .ok (some m) ↔ m.Stamped ∧ m.write <+: data :=
  ⟨write_of_parseMessage, fun h => parseMessage_of_prefix h.1 h.2⟩

end Itch

end MatchingEngine
