import MatchingEngine.Feed.ItchParser
import MatchingEngine.Feed.Snapshot

/-!
# What the decoders of the public feed accept

`mdfeed::decode` refuses a record of the wrong length and `snapshot::decode_snapshot` a buffer
whose length is not the one it announces. Neither looks at the bytes themselves: the type byte
of a record is kept as it is, and every side byte but `'B'` is a sell.

So what is accepted is, written back, what was read but for the side bytes, which come out as
`'S'` where they were not `'B'` (`encode_decoded`, `encodeRow_decodeRow`). The bytes are
those that an encoder writes exactly where no such byte is there and the type is one of the
five (`decoders_accept_iff`).
-/

namespace MatchingEngine

open Foundation

/-! ### Fields written back -/

/-- A byte is overwritten with itself exactly if nothing changes. -/
theorem set_eq_self_iff {b : Bytes} {i : ℕ} (h : i < b.length) {c : UInt8} : b.set i c = b ↔ c = b.getD i 0 := by
  rw [List.getD_eq_getElem _ _ h]
  constructor
  · intro heq
    have hget : (b.set i c)[i]? = some c := by simp [h]
    rw [heq, List.getElem?_eq_getElem h] at hget
    exact (Option.some.inj hget).symm
  · rintro rfl
    exact List.set_getElem_self h

namespace Moldudp64

/-- Eight bytes are written back as they were read, also within a longer buffer. -/
theorem putBe64_getBe64_take {p : Bytes} (h : 8 ≤ p.length) : putBe64 (getBe64 p) = p.take 8 := by
  have hlen : (p.take 8).length = 8 := by
    rw [List.length_take]
    omega
  have hread : getBe64 (p.take 8) = getBe64 p := by simp [getBe64, List.take_take]
  rw [← hread, putBe64_getBe64 hlen]

end Moldudp64

namespace Mdfeed

open Moldudp64

/-- The bytes of the five event types. -/
def typeBytes : List UInt8 := [65, 88, 68, 84, 82]

/-- The bytes of the two sides. -/
def sideBytes : List UInt8 := [66, 83]

/-- The five event types. -/
def eventTypes : List EventType := [.add, .cancel, .delete, .trade, .replace]

theorem priceBits_priceOfBits (b : UInt64) : priceBits (priceOfBits b) = b := by
  have hb := b.toNat_lt
  rw [← UInt64.toNat_inj, priceBits, priceOfBits, UInt64.toNat_ofNat']
  split_ifs <;> omega

theorem EventType.code_ofCode (code : UInt8) : (EventType.ofCode code).code = code := by
  unfold EventType.ofCode
  split_ifs with h h₁ h₂ h₃ h₄
  · exact h₁.symm
  · exact h₂.symm
  · exact h₃.symm
  · exact h₄.symm
  · have hlast : code = 82 := by simpa [h₁, h₂, h₃, h₄] using h
    exact hlast.symm
  · rfl

/-- A type byte names one of the five types exactly if it is one of theirs. -/
theorem ofCode_mem_eventTypes_iff (code : UInt8) : EventType.ofCode code ∈ eventTypes ↔ code ∈ typeBytes := by
  constructor
  · intro h
    rw [← EventType.code_ofCode code]
    generalize EventType.ofCode code = t at h
    cases t with
    | unnamed code hc => simp [eventTypes] at h
    | _ => decide
  · intro h
    simp only [typeBytes, List.mem_cons, List.not_mem_nil, or_false] at h
    rcases h with rfl | rfl | rfl | rfl | rfl <;> decide

/-- A side byte is written back as it was read exactly if it is one of the two. -/
theorem sideByte_sideOfByte_iff (b : UInt8) : sideByte (sideOfByte b) = b ↔ b ∈ sideBytes := by
  unfold sideOfByte
  split_ifs with h
  · subst h
    simp [sideByte, sideBytes]
  · simp [sideByte, sideBytes, h, eq_comm]

/-! ### Records -/

/-- **A record that is accepted is written back** as it was read, but for its side byte. -/
theorem encode_decoded {b : Bytes} {e : MDEvent} (h : decode b = some e) :
    e.type = .ofCode (b.getD 0 0) ∧ encode e = b.set 1 (sideByte (sideOfByte (b.getD 1 0))) := by
  unfold decode at h
  split_ifs at h with hlen
  obtain rfl := Option.some.inj h
  refine ⟨rfl, ?_⟩
  have hlen : b.length = 50 := not_not.mp hlen
  obtain ⟨type, b, rfl⟩ := List.exists_cons_of_length_eq_add_one hlen
  obtain ⟨side, b, rfl⟩ := List.exists_cons_of_length_eq_add_one (Nat.succ.inj hlen)
  have hlen : b.length = 48 := Nat.succ.inj (Nat.succ.inj hlen)
  have hword : ∀ k, k + 8 ≤ 48 → putBe64 (getBe64 (b.drop k)) = (b.drop k).take 8 := by
    intro k hk
    apply putBe64_getBe64_take
    rw [List.length_drop]
    omega
  have hsym : (readArray 8 0 (b.drop 24)).toList = (b.drop 24).take 8 := by
    apply toList_readArray
    rw [List.length_drop]
    omega
  have hend : (b.drop 40).take 8 = b.drop 40 := by
    apply List.take_of_length_le
    rw [List.length_drop]
    omega
  -- the six fields after the two bytes follow one another
  have hfields : (b.drop 0).take 8 ++ ((b.drop 8).take 8 ++ ((b.drop 16).take 8 ++ ((b.drop 24).take 8 ++
      ((b.drop 32).take 8 ++ b.drop 40)))) = b := by
    rw [← drop_eq_take_append b 32 8, ← drop_eq_take_append b 24 8, ← drop_eq_take_append b 16 8,
      ← drop_eq_take_append b 8 8, ← drop_eq_take_append b 0 8, List.drop_zero]
  simp only [encode, List.drop_succ_cons, List.getD_cons_zero, List.getD_cons_succ, EventType.code_ofCode,
    priceBits_priceOfBits, hword 0 (by decide), hword 8 (by decide), hword 16 (by decide), hword 32 (by decide),
    hword 40 (by decide), hsym, hend, hfields]
  rfl

/-- A record is an encoding exactly if its first two bytes are bytes of an encoding. -/
theorem decode_accepts_iff (b : Bytes) :
    (∀ e, decode b = some e → e.type ∈ eventTypes ∧ encode e = b) ↔
      (b.length = kRecordLen → b.getD 0 0 ∈ typeBytes ∧ b.getD 1 0 ∈ sideBytes) := by
  by_cases hlen : b.length = kRecordLen
  · obtain ⟨e, he⟩ : ∃ e, decode b = some e := ⟨_, if_neg (not_not.mpr hlen)⟩
    obtain ⟨htype, hback⟩ := encode_decoded he
    have hset : b.set 1 (sideByte (sideOfByte (b.getD 1 0))) = b ↔ b.getD 1 0 ∈ sideBytes := by
      have h1 : 1 < b.length := by
        rw [hlen]
        decide
      rw [← sideByte_sideOfByte_iff]
      exact set_eq_self_iff h1
    constructor
    · intro h _
      obtain ⟨hmem, henc⟩ := h e he
      rw [htype, ofCode_mem_eventTypes_iff] at hmem
      rw [hback] at henc
      exact ⟨hmem, hset.mp henc⟩
    · intro h e' he'
      obtain rfl : e = e' := Option.some.inj (he.symm.trans he')
      rw [htype, ofCode_mem_eventTypes_iff, hback, hset]
      exact h hlen
  · have hnone : decode b = none := if_pos hlen
    exact iff_of_true (fun e he => nomatch hnone.symm.trans he) fun h => absurd h hlen

end Mdfeed

/-! ### Snapshots -/

namespace Snapshot

open Moldudp64 Mdfeed

/-- A shift by whole bytes divides by them. -/
theorem toUInt8_shiftRight (v : UInt32) {k : UInt32} (hk : k.toNat < 32) :
    (v >>> k).toUInt8 = UInt8.ofNat (v.toNat / 2 ^ k.toNat) := by
  rw [← UInt8.toNat_inj, UInt32.toNat_toUInt8, UInt32.toNat_shiftRight, UInt8.toNat_ofNat', Nat.mod_eq_of_lt hk,
    Nat.shiftRight_eq_div_pow]

theorem putCount_eq (v : UInt32) : putCount v = Itch.put32 v := by
  have hlast : v.toUInt8 = UInt8.ofNat v.toNat := by rw [← UInt8.toNat_inj, UInt32.toNat_toUInt8, UInt8.toNat_ofNat']
  rw [putCount, toUInt8_shiftRight v (by decide), toUInt8_shiftRight v (by decide), toUInt8_shiftRight v (by decide),
    hlast]
  simp [Itch.put32, writeBack, Nat.div_div_eq_div_mul]

/-- The row count is written back as it was read. -/
theorem putCount_getCount {p : Bytes} (h : 4 ≤ p.length) : putCount (getCount p) = p.take 4 := by
  have hlen : (p.take 4).length = 4 := by
    rw [List.length_take]
    omega
  have hread : Itch.be32 (p.take 4) = getCount p := by simp [Itch.be32, getCount]
  rw [putCount_eq, ← hread, Itch.put32_be32 hlen]

/-- **A row is written back** as it was read, but for its side byte. -/
theorem encodeRow_decodeRow {p : Bytes} (h : kRowLen ≤ p.length) :
    encodeRow (decodeRow p) = (p.take kRowLen).set 16 (sideByte (sideOfByte (p.getD 16 0))) := by
  have hlen : 33 ≤ p.length := h
  have hword : ∀ k, k + 8 ≤ 33 → putBe64 (getBe64 (p.drop k)) = (p.drop k).take 8 := by
    intro k hk
    apply putBe64_getBe64_take
    rw [List.length_drop]
    omega
  have hsym : (readArray 8 0 p).toList = p.take 8 := toList_readArray 0 (by omega)
  have hside : (p.drop 16).take 1 = [p.getD 16 0] := by
    rw [List.take_one, List.head?_drop, List.getElem?_eq_getElem (by omega), List.getD_eq_getElem _ _ (by omega)]
    rfl
  -- the five fields of a row follow one another
  have hfields : p.take kRowLen = p.take 8 ++ ((p.drop 8).take 8 ++ ([p.getD 16 0] ++ ((p.drop 17).take 8 ++
      (p.drop 25).take 8))) := by
    rw [← hside, show kRowLen = 8 + (8 + (1 + (8 + 8))) from rfl, List.take_add, List.take_add, List.take_add,
      List.take_add, List.drop_drop, List.drop_drop, List.drop_drop]
  have hfirst : (p.take 8).length = 8 := by
    rw [List.length_take]
    omega
  have hsecond : ((p.drop 8).take 8).length = 8 := by
    rw [List.length_take, List.length_drop]
    omega
  rw [hfields, List.set_append_right _ _ (by omega), hfirst, List.set_append_right _ _ (by omega), hsecond]
  simp only [encodeRow, decodeRow, priceBits_priceOfBits, hsym, hword 8 (by decide), hword 17 (by decide),
    hword 25 (by decide)]
  rfl

@[simp] theorem length_decodeRows (count : ℕ) (p : Bytes) : (decodeRows count p).length = count := by
  induction count generalizing p with
  | zero => rfl
  | succ count ih => rw [decodeRows, List.length_cons, ih]

/-- Rows are written back as they were read exactly if the side byte of each is one of the two. -/
theorem encodeRows_decodeRows_iff {count : ℕ} {p : Bytes} (h : p.length = count * kRowLen) :
    (decodeRows count p).flatMap encodeRow = p ↔ ∀ i < count, p.getD (i * kRowLen + 16) 0 ∈ sideBytes := by
  induction count generalizing p with
  | zero =>
    have hnil : p = [] := List.eq_nil_of_length_eq_zero (by rw [h, Nat.zero_mul])
    simp [hnil, decodeRows]
  | succ count ih =>
    have hlen : p.length = count * 33 + 33 := h.trans (Nat.succ_mul _ _)
    have hrest : (p.drop kRowLen).length = count * kRowLen := by
      rw [List.length_drop, h, Nat.succ_mul, Nat.add_sub_cancel]
    have hrow : kRowLen ≤ p.length := by
      rw [hlen]
      exact Nat.le_add_left _ _
    have hhead : encodeRow (decodeRow p) = p.take kRowLen ↔ p.getD 16 0 ∈ sideBytes := by
      have h16 : 16 < (p.take kRowLen).length := by
        rw [List.length_take, min_eq_left hrow]
        decide
      rw [encodeRow_decodeRow hrow, set_eq_self_iff h16, ← sideByte_sideOfByte_iff]
      simp [kRowLen]
    have hsplit : encodeRow (decodeRow p) ++ (decodeRows count (p.drop kRowLen)).flatMap encodeRow = p ↔
        encodeRow (decodeRow p) = p.take kRowLen ∧
          (decodeRows count (p.drop kRowLen)).flatMap encodeRow = p.drop kRowLen := by
      constructor
      · intro heq
        apply List.append_inj (heq.trans (List.take_append_drop kRowLen p).symm)
        rw [length_encodeRow, List.length_take, min_eq_left hrow]
      · rintro ⟨hfirst, hothers⟩
        rw [hfirst, hothers, List.take_append_drop]
    have hshift : ∀ i, (p.drop kRowLen).getD (i * kRowLen + 16) 0 = p.getD ((i + 1) * kRowLen + 16) 0 := by
      intro i
      rw [List.getD_eq_getElem?_getD, List.getElem?_drop, List.getD_eq_getElem?_getD, Nat.succ_mul]
      congr 2
      omega
    rw [decodeRows, List.flatMap_cons, hsplit, hhead, ih hrest]
    constructor
    · rintro ⟨hzero, hsucc⟩ i hi
      cases i with
      | zero => simpa using hzero
      | succ i => exact hshift i ▸ hsucc i (by omega)
    · intro hall
      exact ⟨by simpa using hall 0 (by omega), fun i hi => hshift i ▸ hall (i + 1) (by omega)⟩

/-- How many rows a snapshot announces. -/
def rowCount (b : Bytes) : ℕ := (getCount (b.drop 8)).toNat

/-- The length is the one that the snapshot announces. -/
def WellSized (b : Bytes) : Prop := 12 ≤ b.length ∧ b.length = 12 + rowCount b * kRowLen

theorem decodeSnapshot_of_wellSized {b : Bytes} (h : WellSized b) :
    decodeSnapshot b = some (getBe64 b, decodeRows (rowCount b) (b.drop 12)) := by
  rw [decodeSnapshot, if_neg (not_lt.mpr h.1)]
  exact if_neg (not_not.mpr h.2)

/-- A snapshot of the wrong length is refused. -/
theorem decodeSnapshot_of_not_wellSized {b : Bytes} (h : ¬ WellSized b) : decodeSnapshot b = none := by
  rw [decodeSnapshot]
  by_cases hlen : b.length < 12
  · exact if_pos hlen
  · rw [if_neg hlen]
    exact if_pos fun heq => h ⟨not_lt.mp hlen, heq⟩

/-- A snapshot of the length that it announces is an encoding exactly if its side bytes are bytes of an encoding. -/
theorem decodeSnapshot_accepts_iff (b : Bytes) :
    (∀ asOfSeq rows, decodeSnapshot b = some (asOfSeq, rows) → encodeSnapshot asOfSeq rows = b) ↔
      (WellSized b → ∀ i < rowCount b, b.getD (12 + i * kRowLen + 16) 0 ∈ sideBytes) := by
  by_cases hsized : WellSized b
  · obtain ⟨hlen, hcount⟩ := hsized
    have hrows : (b.drop 12).length = rowCount b * kRowLen := by
      rw [List.length_drop, hcount, Nat.add_sub_cancel_left]
    have hword : putBe64 (getBe64 b) = b.take 8 := putBe64_getBe64_take (by omega)
    have hput : putCount (UInt32.ofNat (rowCount b)) = (b.drop 8).take 4 := by
      rw [rowCount, UInt32.ofNat_toNat, putCount_getCount]
      rw [List.length_drop]
      omega
    have hsides : ∀ i, (b.drop 12).getD (i * kRowLen + 16) 0 = b.getD (12 + i * kRowLen + 16) 0 := by
      intro i
      rw [List.getD_eq_getElem?_getD, List.getElem?_drop, List.getD_eq_getElem?_getD, Nat.add_assoc]
    -- the header is always written back, and so it is the rows that decide
    have hback : encodeSnapshot (getBe64 b) (decodeRows (rowCount b) (b.drop 12)) = b ↔
        (decodeRows (rowCount b) (b.drop 12)).flatMap encodeRow = b.drop 12 := by
      have hb : b = b.take 8 ++ ((b.drop 8).take 4 ++ b.drop 12) := by
        rw [← drop_eq_take_append b 8 4, List.take_append_drop]
      rw [encodeSnapshot, length_decodeRows, hword, hput]
      constructor
      · intro heq
        exact List.append_cancel_left (List.append_cancel_left (heq.trans hb))
      · intro heq
        rw [heq]
        exact hb.symm
    have hiff : encodeSnapshot (getBe64 b) (decodeRows (rowCount b) (b.drop 12)) = b ↔
        ∀ i < rowCount b, b.getD (12 + i * kRowLen + 16) 0 ∈ sideBytes := by
      rw [hback, encodeRows_decodeRows_iff hrows]
      simp only [hsides]
    rw [decodeSnapshot_of_wellSized ⟨hlen, hcount⟩]
    constructor
    · intro h _
      exact hiff.mp (h _ _ rfl)
    · rintro h asOfSeq rows ⟨⟩
      exact hiff.mpr (h ⟨hlen, hcount⟩)
  · have hnone := decodeSnapshot_of_not_wellSized hsized
    exact iff_of_true (fun k rows h => absurd (hnone.symm.trans h) (Option.some_ne_none _).symm) fun h => absurd h hsized

end Snapshot

/-! ### Both decoders -/

open Mdfeed Snapshot

/-- **What the decoders accept is what the encoders write**, exactly for the buffers whose type
byte is one of the five and whose side bytes are all `'B'` or `'S'`, and for those of a wrong
length, which are refused. -/
theorem decoders_accept_iff (b : Bytes) :
    ((∀ e, decode b = some e → e.type ∈ eventTypes ∧ encode e = b) ↔
      (b.length = kRecordLen → b.getD 0 0 ∈ typeBytes ∧ b.getD 1 0 ∈ sideBytes)) ∧
    ((∀ asOfSeq rows, decodeSnapshot b = some (asOfSeq, rows) → encodeSnapshot asOfSeq rows = b) ↔
      (WellSized b → ∀ i < rowCount b, b.getD (12 + i * kRowLen + 16) 0 ∈ sideBytes)) :=
  ⟨decode_accepts_iff b, decodeSnapshot_accepts_iff b⟩

/-- A record of an added order whose side byte was `'B'` and is now `'b'`. -/
def corruptedRecord : Bytes := 65 :: 98 :: List.replicate 48 0

/-- A snapshot of one row whose side byte is `'b'`. -/
def corruptedSnapshot : Bytes :=
  List.replicate 11 0 ++ 1 :: (List.replicate 16 0 ++ 98 :: List.replicate 16 0)

/-- One corrupted byte makes a sell of a buy, in a record and in a snapshot, and a type byte
that names no event type passes too. -/
theorem corrupted_accepted :
    (∃ e, decode corruptedRecord = some e ∧ e.type = .add ∧ e.side = .sell ∧ encode e ≠ corruptedRecord) ∧
    (∃ e, decode (corruptedRecord.set 0 90) = some e ∧ e.type ∉ eventTypes) ∧
    (∃ asOfSeq rows, decodeSnapshot corruptedSnapshot = some (asOfSeq, rows) ∧
      encodeSnapshot asOfSeq rows ≠ corruptedSnapshot) := by
  refine ⟨⟨_, rfl, ?_, ?_, ?_⟩, ⟨_, rfl, ?_⟩, ⟨_, _, rfl, ?_⟩⟩ <;> decide

end MatchingEngine
