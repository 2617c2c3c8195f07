import MatchingEngine.Feed.ItchRoundTrip
import MatchingEngine.Foundation.Framing

/-!
# Historical files

`cpp/feed/itch_binaryfile_reader.h`: a file is a stream of records, each behind its length in two
bytes. The reader stops at the end, at a length of zero, and at a record that is not all there, so
it gives the records of a file whose end has been cut off as long as they are whole.

`messages` is the loop that all programs read a file with, and `parserCheck` is
`cpp/feed/tests/test_itch_parser.cpp`, which says whether a file is what it should be.
-/

namespace MatchingEngine

open Foundation

namespace Itch

/-! ### The reader -/

/-- `std::fread`: the next bytes, as many as there are, and what is left. -/
def fread (n : ℕ) (f : Bytes) : Bytes × Bytes := (f.take n, f.drop n)

/-- `class BinaryFileReader`. -/
structure BinaryFileReader where
  /-- What is left of `f_`. -/
  f : Bytes

/-- `len`. -/
def lengthOf (lenBytes : Bytes) : UInt64 := ((lenBytes.getD 0 0).toUInt64 <<< 8) ||| (lenBytes.getD 1 0).toUInt64

/-- `next_raw`. -/
def BinaryFileReader.nextRaw (r : BinaryFileReader) : Option Bytes × BinaryFileReader :=
  let (lenBytes, f) := fread 2 r.f
  if lenBytes.length ≠ 2 then (none, ⟨f⟩)
  else
    let len := lengthOf lenBytes
    if len = 0 then (none, ⟨f⟩)
    else
      let (buf, f) := fread len.toNat f
      if buf.length ≠ len.toNat then (none, ⟨f⟩) else (some buf, ⟨f⟩)

/-- The records that a loop gets which asks `n` times at most. -/
def BinaryFileReader.records : ℕ → BinaryFileReader → List Bytes
  | 0, _ => []
  | n + 1, r =>
    match r.nextRaw with
    | (none, _) => []
    | (some raw, r) => raw :: records n r

/-- The messages that a loop gets which asks `n` times at most. It goes on where a record is not parsed. -/
def BinaryFileReader.messages : ℕ → BinaryFileReader → Except Ub (List Message)
  | 0, _ => .ok []
  | n + 1, r =>
    match r.nextRaw with
    | (none, _) => .ok []
    | (some raw, r) => do
      let parsed ← parseMessage raw
      let ms ← messages n r
      .ok (parsed.toList ++ ms)

/-! ### The format -/

/-- What a record can be. -/
structure Record where
  /-- Its bytes. -/
  bytes : Bytes
  /-- There are some, -/
  pos : 0 < bytes.length
  /-- and not too many for two bytes to count them. -/
  lt : bytes.length < 2 ^ 16

theorem Record.ext_bytes {r r' : Record} (h : r.bytes = r'.bytes) : r = r' := by
  cases r
  cases r'
  cases h
  rfl

/-- A record behind its length. -/
def Record.frame (r : Record) : Bytes := Moldudp64.putBe16 (UInt16.ofNat r.bytes.length) ++ r.bytes

theorem Record.length_frame (r : Record) : r.frame.length = r.bytes.length + 2 := by
  rw [Record.frame, List.length_append, Moldudp64.length_putBe16, Nat.add_comm]

theorem toNat_lengthOf (a b : UInt8) : (lengthOf [a, b]).toNat = a.toNat * 256 + b.toNat := by
  have ha := a.toNat_lt
  have hb := b.toNat_lt
  show (Moldudp64.shiftIn a.toUInt64 b).toNat = _
  rw [Moldudp64.toNat_shiftIn, UInt8.toNat_toUInt64]
  exact Nat.mod_eq_of_lt (by omega)

theorem putBe16_lengthOf (a b : UInt8) : Moldudp64.putBe16 (UInt16.ofNat (lengthOf [a, b]).toNat) = [a, b] := by
  have ha := a.toNat_lt
  have hb := b.toNat_lt
  have hget : UInt16.ofNat (lengthOf [a, b]).toNat = Moldudp64.getBe16 [a, b] := by
    refine UInt16.toNat_inj.mp ?_
    rw [Moldudp64.toNat_getBe16, toNat_lengthOf, UInt16.toNat_ofNat', Nat.mod_eq_of_lt (by omega)]
    rfl
  rw [hget, Moldudp64.putBe16_getBe16 rfl]

/-- The length that is in front of a record. -/
theorem Record.toNat_length (r : Record) : (lengthOf (Moldudp64.putBe16 (UInt16.ofNat r.bytes.length))).toNat = r.bytes.length := by
  have h := Moldudp64.getBe16_putBe16 (UInt16.ofNat r.bytes.length) []
  rw [List.append_nil] at h
  have hlen := congrArg UInt16.toNat h
  rw [Moldudp64.toNat_getBe16, UInt16.toNat_ofNat', Nat.mod_eq_of_lt r.lt] at hlen
  rw [Moldudp64.putBe16, toNat_lengthOf]
  exact hlen

/-- **The reader gives a record** that is in front of it. -/
theorem nextRaw_frame (r : Record) (rest : Bytes) :
    BinaryFileReader.nextRaw ⟨r.frame ++ rest⟩ = (some r.bytes, ⟨rest⟩) := by
  have hlen := r.toNat_length
  have hne : lengthOf (Moldudp64.putBe16 (UInt16.ofNat r.bytes.length)) ≠ 0 := fun h => by
    rw [h] at hlen
    exact absurd hlen.symm r.pos.ne'
  have htake : (Moldudp64.putBe16 (UInt16.ofNat r.bytes.length) ++ (r.bytes ++ rest)).take 2 = _ :=
    List.take_left' (Moldudp64.length_putBe16 _)
  have hdrop : (Moldudp64.putBe16 (UInt16.ofNat r.bytes.length) ++ (r.bytes ++ rest)).drop 2 = _ :=
    List.drop_left' (Moldudp64.length_putBe16 _)
  simp [BinaryFileReader.nextRaw, Record.frame, fread, htake, hdrop, hne, hlen]

/-- What it gives is a record that was in front of it. -/
theorem frame_of_nextRaw {f raw : Bytes} {rest : BinaryFileReader} (h : BinaryFileReader.nextRaw ⟨f⟩ = (some raw, rest)) :
    ∃ r : Record, r.bytes = raw ∧ f = r.frame ++ rest.f := by
  rw [BinaryFileReader.nextRaw] at h
  split at h
  next lenBytes f' hread =>
  split at h
  · cases h
  next htwo =>
  dsimp only at h
  split at h
  · cases h
  next hzero =>
  split at h
  · cases h
  next hall =>
  obtain ⟨hraw, rfl⟩ := Prod.mk.inj h
  obtain rfl := Option.some.inj hraw
  obtain ⟨rfl, rfl⟩ := Prod.mk.inj hread
  rw [ne_eq, not_not] at htwo hall
  obtain ⟨a, b, hab⟩ := List.length_eq_two.mp htwo
  rw [hab] at hzero hall ⊢
  have ha := a.toNat_lt
  have hb := b.toNat_lt
  have hlen := toNat_lengthOf a b
  have hpos : 0 < (lengthOf [a, b]).toNat := Nat.pos_of_ne_zero fun h0 => hzero (UInt64.toNat_inj.mp h0)
  refine ⟨⟨_, by rw [hall]; exact hpos, by rw [hall]; omega⟩, rfl, ?_⟩
  rw [Record.frame]
  dsimp only
  rw [hall, putBe16_lengthOf, List.append_assoc, fread, List.take_append_drop, ← hab, List.take_append_drop]

/-- **A frame shows where it ends.** -/
theorem prefixFree_frame : PrefixFree Record.frame where
  ne_nil r h := by
    have := r.length_frame
    rw [h] at this
    cases this
  eq_of_prefix := by
    rintro r r' ⟨s, hs⟩
    have h := nextRaw_frame r s
    have h' := nextRaw_frame r' []
    rw [List.append_nil, ← hs, h] at h'
    exact Record.ext_bytes (Option.some.inj (Prod.mk.inj h').1)

/-- Where the reader stops there is no whole record. -/
theorem nextRaw_fst_of_noFrame {f : Bytes} (h : NoFrame Record.frame f) : (BinaryFileReader.nextRaw ⟨f⟩).1 = none := by
  cases hn : BinaryFileReader.nextRaw ⟨f⟩ with
  | mk raw rest =>
    cases raw with
    | none => rfl
    | some raw =>
      obtain ⟨r, -, hf⟩ := frame_of_nextRaw hn
      exact absurd (hf ▸ List.prefix_append _ _) (h r)

/-! ### Reading a file -/

variable {rest : Bytes}

/-- **The records of a file**, in order. -/
theorem records_written (n : ℕ) (rs : List Record) (h : NoFrame Record.frame rest) :
    BinaryFileReader.records n ⟨written Record.frame rs ++ rest⟩ = (rs.take n).map Record.bytes := by
  induction n generalizing rs with
  | zero => rfl
  | succ n ih =>
    cases rs with
    | nil =>
      rw [BinaryFileReader.records, written_nil, List.nil_append]
      have hnone := nextRaw_fst_of_noFrame h
      cases hn : BinaryFileReader.nextRaw ⟨rest⟩ with
      | mk raw r =>
        rw [hn] at hnone
        obtain rfl : raw = none := hnone
        rfl
    | cons r rs =>
      rw [BinaryFileReader.records, written_cons, List.append_assoc, nextRaw_frame]
      exact congrArg (r.bytes :: ·) (ih rs)

/-- A loop over the records parses each of them. -/
theorem messages_eq (n : ℕ) (r : BinaryFileReader) :
    r.messages n = ((r.records n).mapM parseMessage).map fun parsed => parsed.flatMap Option.toList := by
  induction n generalizing r with
  | zero => rfl
  | succ n ih =>
    rw [BinaryFileReader.messages, BinaryFileReader.records]
    cases r.nextRaw with
    | mk raw r =>
      cases raw with
      | none => rfl
      | some raw =>
        dsimp only
        rw [ih, List.mapM_cons]
        cases parseMessage raw with
        | error u => rfl
        | ok parsed => cases (r.records n).mapM parseMessage <;> rfl

/-- The message of a record, if it is one. -/
def parsed (raw : Bytes) : Option Message := (parseMessage raw).toOption.join

/-- The messages that a loop gets from a file. -/
def fileMessages (n : ℕ) (f : Bytes) : List Message := (BinaryFileReader.records n ⟨f⟩).filterMap parsed

/-- **Every file can be read.** -/
theorem messages_ok (n : ℕ) (f : Bytes) : BinaryFileReader.messages n ⟨f⟩ = .ok (fileMessages n f) := by
  rw [messages_eq, fileMessages]
  induction BinaryFileReader.records n ⟨f⟩ with
  | nil => rfl
  | cons raw raws ih =>
    obtain ⟨r, hr, -⟩ := parseMessage_spec raw
    have hparsed : parsed raw = r := by
      rw [parsed, hr]
      rfl
    rw [List.mapM_cons, hr, ok_bind, List.filterMap_cons, hparsed]
    cases hraws : raws.mapM parseMessage with
    | error u =>
      rw [hraws] at ih
      cases ih
    | ok rs =>
      rw [hraws] at ih
      have htail := Except.ok.inj ih
      refine congrArg Except.ok ?_
      dsimp only at htail ⊢
      rw [List.flatMap_cons, htail]
      cases r <;> rfl

/-- The record of a message. -/
def Message.record (m : Message) : Record where
  bytes := m.write
  pos := by
    rw [length_write]
    have := expectedLength_ge (expectedLength_ne_zero_iff.mpr (typeCode_mem m))
    omega
  lt := by
    rw [length_write]
    cases m <;> simp [Message.typeCode, expectedLength]

/-- A file of messages. -/
def writeFile (ms : List Message) : Bytes := written Record.frame (ms.map Message.record)

theorem map_bytes_record (ms : List Message) : (ms.map Message.record).map Record.bytes = ms.map Message.write := by
  rw [List.map_map]
  rfl

/-- Records that were written from messages are parsed to them. -/
theorem mapM_parseMessage {ms : List Message} (h : ∀ m ∈ ms, m.Stamped) :
    (ms.map Message.write).mapM parseMessage = .ok (ms.map some) := by
  induction ms with
  | nil => rfl
  | cons m ms ih =>
    rw [List.map_cons, List.mapM_cons, parseMessage_of_prefix (h m List.mem_cons_self) (List.prefix_refl _), ok_bind,
      ih fun m' hm' => h m' (List.mem_cons_of_mem m hm')]
    rfl

/-- The records of a file of messages, with something behind it that is no record. -/
theorem records_writeFile (n : ℕ) (ms : List Message) (hrest : NoFrame Record.frame rest) :
    BinaryFileReader.records n ⟨writeFile ms ++ rest⟩ = (ms.take n).map Message.write := by
  rw [writeFile, records_written n _ hrest, ← List.map_take, map_bytes_record]

/-- The messages of such a file. -/
theorem messages_writeFile {ms : List Message} (h : ∀ m ∈ ms, m.Stamped) (hrest : NoFrame Record.frame rest) (n : ℕ) :
    BinaryFileReader.messages n ⟨writeFile ms ++ rest⟩ = .ok (ms.take n) := by
  rw [messages_eq, records_writeFile n ms hrest, mapM_parseMessage fun m hm => h m (List.mem_of_mem_take hm)]
  refine congrArg Except.ok ?_
  dsimp only
  rw [List.flatMap_map]
  exact List.flatMap_singleton' _

theorem fileMessages_writeFile {ms : List Message} (h : ∀ m ∈ ms, m.Stamped) (n : ℕ) :
    fileMessages n (writeFile ms) = ms.take n := by
  have hread := messages_writeFile h prefixFree_frame.noFrame_nil n
  rw [List.append_nil, messages_ok] at hread
  exact Except.ok.inj hread

/-- **A file of messages is read back.** Whatever has been cut off at its end, and however often the loop asks, the
messages are the first ones, as many as are whole and are asked for. -/
theorem messages_of_cut {ms : List Message} (h : ∀ m ∈ ms, m.Stamped) (n k : ℕ) :
    BinaryFileReader.messages n ⟨(writeFile ms).take k⟩ =
      .ok (ms.take (min n (wholeIn Record.frame k (ms.map Message.record)))) := by
  obtain ⟨rest, he, hrest⟩ := prefixFree_frame.take_written k (ms.map Message.record)
  rw [← List.map_take] at he
  rw [writeFile, he, ← List.take_take]
  exact messages_writeFile (fun m hm => h m (List.mem_of_mem_take hm)) hrest n

/-- The start of messages. -/
def startOfMessages : Message := .systemEvent ⟨⟨0, 0, 0⟩, 79⟩

/-- In the first 20 bytes there is only the first of two records. -/
theorem messages_of_cut_two :
    BinaryFileReader.messages 5 ⟨(writeFile [startOfMessages, .orderDelete ⟨⟨1, 2, 3⟩, 9⟩]).take 20⟩ = .ok [startOfMessages] :=
  messages_of_cut (show ∀ m ∈ [startOfMessages, .orderDelete ⟨⟨1, 2, 3⟩, 9⟩], m.Stamped by decide) 5 20

/-! ### The check of a file -/

/-- What the check counts. -/
structure ParserCheck where
  /-- `total`. -/
  total : ℕ := 0
  /-- `unrecognized`. -/
  unrecognized : ℕ := 0
  /-- `length_mismatches`. -/
  lengthMismatches : ℕ := 0
  /-- `counts`. -/
  counts : Char → ℕ := fun _ => 0
  /-- `checked_first`. -/
  checkedFirst : Bool := false
  /-- `first_ok`. -/
  firstOk : Bool := false

namespace ParserCheck

/-- Its length is compared with that of its type. -/
def countRecord (c : ParserCheck) (expected length : ℕ) : ParserCheck :=
  if expected = 0 then { c with total := c.total + 1, unrecognized := c.unrecognized + 1 }
  else if expected ≠ length then { c with total := c.total + 1, lengthMismatches := c.lengthMismatches + 1 }
  else { c with total := c.total + 1 }

/-- A message has been parsed. -/
def countMessage (c : ParserCheck) (type : Char) : ParserCheck :=
  { c with counts := Function.update c.counts type (c.counts type + 1) }

/-- `first_ok`, when the first message has been parsed: a System Event, the start of messages. -/
def startOk (m : Message) (firstOk : Bool) : Bool :=
  match m with
  | .systemEvent se => se.eventCode == 79
  | _ => firstOk

/-- The first message that has been parsed is looked at. -/
def checkFirst (c : ParserCheck) (m : Message) : ParserCheck :=
  if c.checkedFirst then c else { c with checkedFirst := true, firstOk := startOk m c.firstOk }

/-- One record. -/
def note (c : ParserCheck) (buf : Bytes) : Except Ub ParserCheck := do
  let type := toChar (buf.headD 0)
  let c := c.countRecord (expectedLength type) buf.length
  match ← parseMessage buf with
  | some m => .ok ((c.countMessage type).checkFirst m)
  | none => .ok c

/-- `pass`. -/
def Passes (c : ParserCheck) : Prop := 0 < c.total ∧ c.unrecognized = 0 ∧ c.lengthMismatches = 0 ∧ c.firstOk = true

/-- The records that are not what they should be. -/
def bad (c : ParserCheck) : ℕ := c.unrecognized + c.lengthMismatches

/-- One message. -/
def noteMessage (c : ParserCheck) (m : Message) : ParserCheck :=
  (({ c with total := c.total + 1 } : ParserCheck).countMessage m.typeCode).checkFirst m

end ParserCheck

/-- `main` of the check. -/
def parserCheck (r : BinaryFileReader) : Except Ub ParserCheck := (r.records r.f.length).foldlM ParserCheck.note {}

namespace ParserCheck

variable {c : ParserCheck} {m : Message} {ms : List Message} {buf : Bytes}

theorem bad_checkFirst (c : ParserCheck) (m : Message) : (c.checkFirst m).bad = c.bad := by
  rw [checkFirst]
  split_ifs
  · rfl
  · rfl

/-- The record of a message is counted as one. -/
theorem note_write (c : ParserCheck) (hm : m.Stamped) : c.note m.write = .ok (c.noteMessage m) := by
  have hne := expectedLength_ne_zero_iff.mpr (typeCode_mem m)
  have htype : toChar (m.write.headD 0) = m.typeCode := by
    have hhead := head_write m
    cases hw : m.write with
    | nil =>
      rw [hw] at hhead
      cases hhead
    | cons b rest =>
      rw [hw, charAt_zero] at hhead
      rw [List.headD_cons, Except.ok.inj hhead, toChar_ofNat_typeCode]
  have hcount : c.countRecord (expectedLength m.typeCode) m.write.length = { c with total := c.total + 1 } := by
    rw [countRecord, if_neg hne, if_neg (not_not.mpr (length_write m).symm)]
  simp only [note, htype, hcount, parseMessage_of_prefix hm (List.prefix_refl _), ok_bind, noteMessage]

/-- A record of another length, or of no known type, is counted as bad. -/
theorem bad_countRecord {expected length : ℕ} (h : expected = 0 ∨ expected ≠ length) :
    (c.countRecord expected length).bad = c.bad + 1 := by
  rw [countRecord]
  split_ifs with hzero hlen
  · exact Nat.add_right_comm ..
  · rfl
  · exact absurd (h.resolve_left hzero) hlen

/-- **A record is that of a message**, or it is counted as bad. -/
theorem note_cases (c : ParserCheck) (buf : Bytes) :
    (∃ m : Message, m.Stamped ∧ m.write = buf) ∨ ∃ c', c.note buf = .ok c' ∧ c'.bad = c.bad + 1 := by
  obtain ⟨r, hr, hsome, hspec⟩ := parseMessage_spec buf
  by_cases hbad : expectedLength (toChar (buf.headD 0)) = 0 ∨ expectedLength (toChar (buf.headD 0)) ≠ buf.length
  · refine .inr ?_
    rw [note, hr, ok_bind]
    cases r with
    | none => exact ⟨_, rfl, bad_countRecord hbad⟩
    | some m => exact ⟨_, rfl, (bad_checkFirst ..).trans (bad_countRecord hbad)⟩
  · obtain ⟨hknown, hlen⟩ := not_or.mp hbad
    rw [ne_eq, not_not] at hlen
    cases buf with
    | nil => exact absurd hlen hknown
    | cons b rest =>
      rw [List.headD_cons] at hknown hlen
      obtain ⟨m, rfl⟩ := Option.isSome_iff_exists.mp
        (hsome.mpr ⟨b, rest, rfl, expectedLength_ne_zero_iff.mp hknown, hlen.le⟩)
      obtain ⟨htype, hwrite, -⟩ := hspec m rfl
      refine .inl ⟨m, (write_of_parseMessage hr).1, ?_⟩
      rw [hwrite, ← Option.some.inj htype, hlen, List.take_length]

/-- The records of messages. -/
theorem foldlM_note_write (c : ParserCheck) (h : ∀ m ∈ ms, m.Stamped) :
    (ms.map Message.write).foldlM note c = .ok (ms.foldl noteMessage c) := by
  induction ms generalizing c with
  | nil => rfl
  | cons m ms ih =>
    rw [List.map_cons, List.foldlM_cons, note_write c (h m List.mem_cons_self), ok_bind, List.foldl_cons]
    exact ih _ fun m' hm' => h m' (List.mem_cons_of_mem m hm')

theorem bad_noteMessage (c : ParserCheck) (m : Message) : (c.noteMessage m).bad = c.bad := bad_checkFirst ..

theorem bad_foldl_noteMessage (c : ParserCheck) (ms : List Message) : (ms.foldl noteMessage c).bad = c.bad := by
  induction ms generalizing c with
  | nil => rfl
  | cons m ms ih => rw [List.foldl_cons, ih, bad_noteMessage]

/-- **The records are those of messages**, or some of them are counted as bad. -/
theorem foldlM_note_cases (c : ParserCheck) (raws : List Bytes) :
    (∃ ms : List Message, (∀ m ∈ ms, m.Stamped) ∧ ms.map Message.write = raws) ∨
      ∃ c', raws.foldlM note c = .ok c' ∧ c.bad < c'.bad := by
  induction raws generalizing c with
  | nil => exact .inl ⟨[], List.forall_mem_nil _, rfl⟩
  | cons raw raws ih =>
    rw [List.foldlM_cons]
    obtain ⟨m, hm, rfl⟩ | ⟨c', hc', hbad⟩ := note_cases c raw
    · rw [note_write c hm, ok_bind]
      obtain ⟨ms, hms, rfl⟩ | ⟨c', hc', hbad⟩ := ih (c.noteMessage m)
      · exact .inl ⟨m :: ms, List.forall_mem_cons.mpr ⟨hm, hms⟩, rfl⟩
      · rw [bad_noteMessage] at hbad
        exact .inr ⟨c', hc', hbad⟩
    · refine .inr ?_
      rw [hc', ok_bind]
      obtain ⟨ms, hms, rfl⟩ | ⟨c'', hc'', hbad'⟩ := ih c'
      · refine ⟨_, foldlM_note_write c' hms, ?_⟩
        rw [bad_foldl_noteMessage, hbad]
        exact Nat.lt_succ_self _
      · exact ⟨c'', hc'', by omega⟩

/-! ### What the check finds in a file of messages -/

theorem total_foldl_noteMessage (c : ParserCheck) (ms : List Message) :
    (ms.foldl noteMessage c).total = c.total + ms.length := by
  induction ms generalizing c with
  | nil => rfl
  | cons m ms ih =>
    have hm : (c.noteMessage m).total = c.total + 1 := by
      rw [noteMessage, checkFirst]
      split_ifs <;> rfl
    rw [List.foldl_cons, ih, hm, List.length_cons]
    omega

theorem counts_foldl_noteMessage (c : ParserCheck) (ms : List Message) (type : Char) :
    (ms.foldl noteMessage c).counts type = c.counts type + ms.countP (·.typeCode = type) := by
  induction ms generalizing c with
  | nil => rfl
  | cons m ms ih =>
    have hm : (c.noteMessage m).counts = Function.update c.counts m.typeCode (c.counts m.typeCode + 1) := by
      rw [noteMessage, checkFirst]
      split_ifs <;> rfl
    rw [List.foldl_cons, ih, hm, List.countP_cons]
    by_cases ht : m.typeCode = type
    · subst ht
      rw [Function.update_self, if_pos (by simp)]
      omega
    · rw [Function.update_of_ne (Ne.symm ht), if_neg (by simpa using ht), Nat.add_zero]

/-- The first message decides. -/
theorem firstOk_foldl_noteMessage (h : c.checkedFirst = true) : (ms.foldl noteMessage c).firstOk = c.firstOk := by
  induction ms generalizing c with
  | nil => rfl
  | cons m ms ih =>
    have hm : c.noteMessage m = ({ c with total := c.total + 1 } : ParserCheck).countMessage m.typeCode := if_pos h
    rw [List.foldl_cons, hm]
    exact ih h

/-- **The check passes** if there are messages and the first one is the start of messages. -/
theorem passes_foldl_noteMessage (ms : List Message) :
    (ms.foldl noteMessage {}).Passes ↔ ∃ se, ms.head? = some (.systemEvent se) ∧ se.eventCode = 79 := by
  have hbad := bad_foldl_noteMessage {} ms
  have hzero : (ms.foldl noteMessage {}).unrecognized = 0 ∧ (ms.foldl noteMessage {}).lengthMismatches = 0 :=
    Nat.add_eq_zero_iff.mp hbad
  rw [Passes, total_foldl_noteMessage]
  cases ms with
  | nil => simp
  | cons m ms =>
    have hfirst : ((m :: ms).foldl noteMessage {}).firstOk = startOk m false :=
      @firstOk_foldl_noteMessage (noteMessage {} m) ms rfl
    rw [hfirst]
    refine ⟨fun ⟨_, _, _, hok⟩ => ?_, ?_⟩
    · cases m with
      | systemEvent se => exact ⟨se, rfl, beq_iff_eq.mp hok⟩
      | _ => cases hok
    · rintro ⟨se, hse, hcode⟩
      obtain rfl := Option.some.inj hse
      refine ⟨?_, hzero.1, hzero.2, beq_iff_eq.mpr hcode⟩
      rw [List.length_cons]
      omega

end ParserCheck

/-- Every record takes three bytes at least. -/
theorem length_le_written (rs : List Record) : rs.length ≤ (written Record.frame rs).length := by
  induction rs with
  | nil => exact Nat.le_refl 0
  | cons r rs ih =>
    rw [written_cons, List.length_append, r.length_frame, List.length_cons]
    omega

/-- **What the check says of a file.** It passes if and only if the file is one of messages, of which the first is the
start of messages, with at most something behind them that is no whole record; and of such a file it gives the
number of messages, and how many there are of each type. -/
theorem parserCheck_passes_iff (f : Bytes) : ∃ c, parserCheck ⟨f⟩ = .ok c ∧
    (c.Passes ↔ ∃ ms rest, (∀ m ∈ ms, m.Stamped) ∧ f = writeFile ms ++ rest ∧ NoFrame Record.frame rest ∧
      ∃ se, ms.head? = some (.systemEvent se) ∧ se.eventCode = 79) ∧
    ∀ ms rest, (∀ m ∈ ms, m.Stamped) → f = writeFile ms ++ rest → NoFrame Record.frame rest →
      c.total = ms.length ∧ ∀ type, c.counts type = ms.countP (·.typeCode = type) := by
  have hall : ∀ {ms : List Message} {rest}, f = writeFile ms ++ rest → NoFrame Record.frame rest →
      BinaryFileReader.records f.length ⟨f⟩ = ms.map Message.write := by
    intro ms rest hf hrest
    have hlen := length_le_written (ms.map Message.record)
    rw [List.length_map] at hlen
    have hrecords := records_writeFile f.length ms hrest
    rw [← hf] at hrecords
    rw [hrecords, List.take_of_length_le]
    rw [hf, List.length_append, writeFile]
    omega
  obtain ⟨c, hc, hfile⟩ : ∃ c, parserCheck ⟨f⟩ = .ok c ∧
      (c.Passes → ∃ ms rest, (∀ m ∈ ms, m.Stamped) ∧ f = writeFile ms ++ rest ∧ NoFrame Record.frame rest) := by
    obtain ⟨ms, hms, hrecords⟩ | ⟨c, hc, hbad⟩ := ParserCheck.foldlM_note_cases {} (BinaryFileReader.records f.length ⟨f⟩)
    · obtain ⟨rs, rest, hf, hrest⟩ := prefixFree_frame.exists_written f
      refine ⟨ms.foldl ParserCheck.noteMessage {}, ?_, fun _ => ⟨ms, rest, hms, ?_, hrest⟩⟩
      · rw [parserCheck, ← hrecords, ParserCheck.foldlM_note_write _ hms]
      · have hlen := length_le_written rs
        have hrs := records_written f.length rs hrest
        rw [← hf, ← hrecords, List.take_of_length_le (by rw [hf, List.length_append]; omega)] at hrs
        rw [writeFile, hf]
        congr 2
        refine List.map_injective_iff.mpr (fun r r' => Record.ext_bytes) ?_
        rw [map_bytes_record, hrs]
    · refine ⟨c, hc, fun hp => ?_⟩
      obtain ⟨-, hunrecognized, hmismatches, -⟩ := hp
      rw [show c.bad = c.unrecognized + c.lengthMismatches from rfl, hunrecognized, hmismatches] at hbad
      exact absurd hbad (Nat.not_lt_zero _)
  have hcheck : ∀ {ms : List Message} {rest}, (∀ m ∈ ms, m.Stamped) → f = writeFile ms ++ rest → NoFrame Record.frame rest →
      c = ms.foldl ParserCheck.noteMessage {} := by
    intro ms rest hms hf hrest
    refine Except.ok.inj (hc.symm.trans ?_)
    rw [parserCheck, hall hf hrest, ParserCheck.foldlM_note_write _ hms]
  refine ⟨c, hc, ⟨fun hp => ?_, ?_⟩, fun ms rest hms hf hrest => ?_⟩
  · obtain ⟨ms, rest, hms, hf, hrest⟩ := hfile hp
    refine ⟨ms, rest, hms, hf, hrest, (ParserCheck.passes_foldl_noteMessage ms).mp ?_⟩
    rwa [← hcheck hms hf hrest]
  · rintro ⟨ms, rest, hms, hf, hrest, hstart⟩
    rw [hcheck hms hf hrest]
    exact (ParserCheck.passes_foldl_noteMessage ms).mpr hstart
  · rw [hcheck hms hf hrest]
    refine ⟨?_, fun type => ?_⟩
    · rw [ParserCheck.total_foldl_noteMessage]
      exact Nat.zero_add _
    · rw [ParserCheck.counts_foldl_noteMessage]
      exact Nat.zero_add _

end Itch

end MatchingEngine
