import MatchingEngine.Feed.GapRequests
import MatchingEngine.Feed.Recovery
import MatchingEngine.Foundation.FairRuns

/-!
# The retransmission exchange

What the feed tests build around a session (`test_udp_multicast_e2e.cpp`,
`test_snapshot_recovery.cpp`): a sender multicasts messages in packets of a fixed size, and
heartbeats or the end of the session; a re-request server has the same packets, by the number
of the first message of each; the subscriber feeds what comes to its session, and sends the
session's requests to the server, whose reply comes like any other packet.

Between them is a network that may lose datagrams, deliver them late, in another order or
several times: a `Net` has all that were sent, and any of them may arrive at any moment. What
holds whatever the network does is `Reachable.safe` and `Reachable.requests_answered`.
-/

namespace MatchingEngine.Moldudp64

open Foundation

/-! ### Requests and control packets -/

/-- The three fields that every packet begins with are found where they were written. -/
theorem bytesAt_header (session : SessionId) (seq : UInt64) (count : UInt16) (rest : Bytes) :
    bytesAt (session.toList ++ putBe64 seq ++ putBe16 count ++ rest) 0 kSessionLen = .ok session.toList ∧
    bytesAt (session.toList ++ putBe64 seq ++ putBe16 count ++ rest) kSessionLen 8 = .ok (putBe64 seq) ∧
    bytesAt (session.toList ++ putBe64 seq ++ putBe16 count ++ rest) (kSessionLen + 8) 2 = .ok (putBe16 count) := by
  have hsession : session.toList.length = kSessionLen := session.length_toList
  refine ⟨?_, ?_, ?_⟩
  · rw [List.append_assoc, List.append_assoc]
    exact @bytesAt_append _ _ [] _ _ rfl hsession
  · rw [List.append_assoc, List.append_assoc]
    exact bytesAt_append _ hsession (length_putBe64 seq)
  · rw [List.append_assoc]
    refine bytesAt_append _ ?_ (length_putBe16 count)
    rw [List.length_append, hsession, length_putBe64]

theorem getBe64_putBe64_self (v : UInt64) : getBe64 (putBe64 v) = v := by
  have := getBe64_putBe64 v []
  rwa [List.append_nil] at this

theorem getBe16_putBe16_self (v : UInt16) : getBe16 (putBe16 v) = v := by
  have := getBe16_putBe16 v []
  rwa [List.append_nil] at this

theorem readArray_toList (session : SessionId) : readArray kSessionLen 0 session.toList = session := by
  have := readArray_toList_append kSessionLen 0 session []
  rwa [List.append_nil] at this

theorem length_header (session : SessionId) (seq : UInt64) (count : UInt16) :
    (session.toList ++ putBe64 seq ++ putBe16 count).length = kDownstreamHeaderLen := by
  rw [List.length_append, List.length_append, session.length_toList, length_putBe64, length_putBe16]
  rfl

/-- **A request is read back** as it was written, whatever follows it. -/
theorem decodeRequest_encodeRequest (r : RequestPacket) (rest : Bytes) :
    decodeRequest (encodeRequest r ++ rest) = .ok (some r) := by
  obtain ⟨hsession, hseq, hcount⟩ := bytesAt_header r.session r.sequenceNumber r.requestedMessageCount rest
  have hlong : ¬ (encodeRequest r ++ rest).length < kRequestLen := by
    rw [encodeRequest, List.length_append, length_header]
    exact not_lt.mpr (Nat.le_add_right _ _)
  rw [decodeRequest, if_neg hlong, encodeRequest, hsession, ok_bind, hseq, ok_bind, hcount, ok_bind,
    readArray_toList, getBe64_putBe64_self, getBe16_putBe16_self]

/-- **A control packet is read back** as it was written. -/
theorem decodeDownstream_encodeControl (session : SessionId) (seq : UInt64) {count : UInt16}
    (h : count = kHeartbeat ∨ count = kEndOfSession) :
    decodeDownstream (encodeControl session seq count) = .ok (some (⟨session, seq, count⟩, [])) := by
  obtain ⟨hsession, hseq, hcount⟩ := bytesAt_header session seq count []
  simp only [List.append_nil] at hsession hseq hcount
  have hlong : ¬ (encodeControl session seq count).length < kDownstreamHeaderLen := by
    rw [encodeControl, length_header]
    exact lt_irrefl _
  have hcontrol : DownstreamHeader.IsControl ⟨session, seq, count⟩ := h
  rw [decodeDownstream, if_neg hlong, encodeControl, hsession, ok_bind, hseq, ok_bind, hcount, ok_bind]
  dsimp only
  rw [readArray_toList, getBe64_putBe64_self, getBe16_putBe16_self, if_pos hcontrol]

/-! ### The packets -/

/-- What is published: the messages of a session from a number on, so many to a packet. -/
structure Publication where
  /-- `session_id`. -/
  session : SessionId
  /-- The number of the first message. -/
  first : UInt64
  /-- The messages. -/
  messages : List Bytes
  /-- `kEventsPerPacket`. -/
  perPacket : ℕ
  /-- A packet has messages, and its header can count them. -/
  perPacket_pos : 0 < perPacket
  /-- Its header can count them. -/
  perPacket_le : perPacket ≤ 65534
  /-- A block can say how long its message is. -/
  fits : ∀ m ∈ messages, m.length ≤ 65535
  /-- The numbers do not wrap round, nor does the one after the last. -/
  noWrap : first.toNat + messages.length < 2 ^ 64

/-- The loop that fills `packets_by_seq`, over the messages that are left. Its keys only grow. -/
def packetLoop (session : SessionId) (perPacket : ℕ) : ℕ → UInt64 → List Bytes → List (UInt64 × Bytes)
  | 0, _, _ => []
  | fuel + 1, s, messages =>
    if messages.isEmpty then []
    else
      let batch := messages.take perPacket
      (s, encodeDownstream session s batch) ::
        packetLoop session perPacket fuel (s + UInt64.ofNat batch.length) (messages.drop perPacket)

namespace Publication

variable (P : Publication)

/-- `packets_by_seq`. -/
def packetsBySeq : List (UInt64 × Bytes) := packetLoop P.session P.perPacket P.messages.length P.first P.messages

/-- `find`. -/
def find (seq : UInt64) : Option Bytes := P.packetsBySeq.lookup seq

/-- The messages of the `i`-th packet. -/
def batch (i : ℕ) : List Bytes := (P.messages.drop (i * P.perPacket)).take P.perPacket

/-- The number of the first of them. -/
def start (i : ℕ) : UInt64 := P.first + UInt64.ofNat (i * P.perPacket)

/-- The `i`-th packet. -/
def packet (i : ℕ) : Bytes := encodeDownstream P.session (P.start i) (P.batch i)

/-- The number after the last message. -/
def last : UInt64 := P.first + UInt64.ofNat P.messages.length

/-- A datagram that the sender may send. The tests' senders send each packet once and in order, but for the
ones they hold back, and heartbeats or the end of the session when they are done. -/
def Sends (d : Bytes) : Prop :=
  d ∈ P.packetsBySeq.map Prod.snd ∨
    ∃ seq count, (count = kHeartbeat ∨ count = kEndOfSession) ∧ seq ≤ P.last ∧ d = encodeControl P.session seq count

end Publication

variable {P : Publication}

theorem Publication.toNat_start {i : ℕ} (h : i * P.perPacket ≤ P.messages.length) :
    (P.start i).toNat = P.first.toNat + i * P.perPacket := by
  have hwrap := P.noWrap
  rw [start, UInt64.toNat_add, UInt64.toNat_ofNat_of_lt' (show i * P.perPacket < 2 ^ 64 by omega)]
  exact Nat.mod_eq_of_lt (by omega)

theorem Publication.toNat_last : P.last.toNat = P.first.toNat + P.messages.length := by
  have hwrap := P.noWrap
  rw [last, UInt64.toNat_add, UInt64.toNat_ofNat_of_lt' (show P.messages.length < 2 ^ 64 by omega)]
  exact Nat.mod_eq_of_lt hwrap

theorem Publication.length_batch (i : ℕ) :
    (P.batch i).length = min P.perPacket (P.messages.length - i * P.perPacket) := by
  rw [batch, List.length_take, List.length_drop]

/-- What the loop puts in the table for the `i`-th batch. -/
def tableEntry (session : SessionId) (perPacket : ℕ) (s : UInt64) (messages : List Bytes) (i : ℕ) : UInt64 × Bytes :=
  let seq := s + UInt64.ofNat (i * perPacket)
  (seq, encodeDownstream session seq ((messages.drop (i * perPacket)).take perPacket))

variable {session : SessionId} {perPacket fuel : ℕ} {s : UInt64} {messages : List Bytes}

/-- The batches after the first are those of the messages that it leaves. -/
theorem tableEntry_succ (h : perPacket < messages.length) (i : ℕ) :
    tableEntry session perPacket (s + UInt64.ofNat (messages.take perPacket).length) (messages.drop perPacket) i =
      tableEntry session perPacket s messages (i + 1) := by
  have hseq : s + UInt64.ofNat perPacket + UInt64.ofNat (i * perPacket) = s + UInt64.ofNat ((i + 1) * perPacket) := by
    rw [UInt64.add_assoc, ← UInt64.ofNat_add, Nat.succ_mul, Nat.add_comm]
  rw [tableEntry, tableEntry, List.length_take, Nat.min_eq_left h.le, hseq, List.drop_drop, Nat.succ_mul,
    Nat.add_comm (i * perPacket)]

/-- Every packet in the table is that of a batch. -/
theorem mem_packetLoop (hpos : 0 < perPacket) (hfuel : messages.length ≤ fuel) {e : UInt64 × Bytes}
    (he : e ∈ packetLoop session perPacket fuel s messages) :
    ∃ i, i * perPacket < messages.length ∧ e = tableEntry session perPacket s messages i := by
  induction fuel generalizing s messages with
  | zero => cases he
  | succ fuel ih =>
    rw [packetLoop] at he
    split_ifs at he with hempty
    · cases he
    have hlen : 0 < messages.length := List.length_pos_iff.mpr fun h => hempty (List.isEmpty_iff.mpr h)
    rcases List.mem_cons.mp he with rfl | hrest
    · refine ⟨0, by omega, ?_⟩
      rw [tableEntry, Nat.zero_mul]
      simp
    · obtain ⟨i, hi, rfl⟩ := ih (by rw [List.length_drop]; omega) hrest
      rw [List.length_drop] at hi
      refine ⟨i + 1, by rw [Nat.succ_mul]; omega, tableEntry_succ (by omega) i⟩

/-- **The packet of every batch is found** under the number of its first message. -/
theorem lookup_packetLoop (hpos : 0 < perPacket) (hfuel : messages.length ≤ fuel)
    (hwrap : s.toNat + messages.length < 2 ^ 64) {i : ℕ} (hi : i * perPacket < messages.length) :
    (packetLoop session perPacket fuel s messages).lookup (s + UInt64.ofNat (i * perPacket)) =
      some (tableEntry session perPacket s messages i).2 := by
  induction fuel generalizing s messages i with
  | zero => omega
  | succ fuel ih =>
    have hempty : messages.isEmpty = false := by
      rw [List.isEmpty_eq_false_iff]
      exact List.ne_nil_of_length_pos (by omega)
    rw [packetLoop, if_neg (by rw [hempty]; exact Bool.false_ne_true)]
    cases i with
    | zero => simp [tableEntry]
    | succ i =>
      rw [Nat.succ_mul] at hi
      have hlong : perPacket < messages.length := by omega
      have htake : (messages.take perPacket).length = perPacket := by
        rw [List.length_take, Nat.min_eq_left hlong.le]
      have hnext : (s + UInt64.ofNat perPacket).toNat = s.toNat + perPacket := by
        rw [UInt64.toNat_add, UInt64.toNat_ofNat_of_lt' (show perPacket < 2 ^ 64 by omega)]
        exact Nat.mod_eq_of_lt (by omega)
      have hrest := @ih (s + UInt64.ofNat (messages.take perPacket).length) (messages.drop perPacket)
        (by rw [List.length_drop]; omega) (by rw [htake, hnext, List.length_drop]; omega) i
        (by rw [List.length_drop]; omega)
      have hkey : s + UInt64.ofNat (messages.take perPacket).length + UInt64.ofNat (i * perPacket) =
          s + UInt64.ofNat ((i + 1) * perPacket) :=
        congrArg Prod.fst (@tableEntry_succ session _ _ _ hlong i)
      rw [tableEntry_succ hlong, hkey] at hrest
      have hne : s + UInt64.ofNat ((i + 1) * perPacket) ≠ s := by
        intro heq
        have hnat := congrArg UInt64.toNat heq
        have hmul : (i + 1) * perPacket = i * perPacket + perPacket := Nat.succ_mul i perPacket
        rw [UInt64.toNat_add, UInt64.toNat_ofNat_of_lt' (show (i + 1) * perPacket < 2 ^ 64 by omega),
          Nat.mod_eq_of_lt (by omega)] at hnat
        omega
      dsimp only
      rw [List.lookup_cons, beq_false_of_ne hne]
      exact hrest

theorem Publication.find_start {i : ℕ} (hi : i * P.perPacket < P.messages.length) :
    P.find (P.start i) = some (P.packet i) :=
  lookup_packetLoop P.perPacket_pos le_rfl P.noWrap hi

theorem Publication.mem_packetsBySeq {d : Bytes} (h : d ∈ P.packetsBySeq.map Prod.snd) :
    ∃ i, i * P.perPacket < P.messages.length ∧ d = P.packet i := by
  obtain ⟨e, he, rfl⟩ := List.mem_map.mp h
  obtain ⟨i, hi, rfl⟩ := mem_packetLoop P.perPacket_pos le_rfl he
  exact ⟨i, hi, rfl⟩

theorem Publication.packet_mem {i : ℕ} (hi : i * P.perPacket < P.messages.length) :
    P.packet i ∈ P.packetsBySeq.map Prod.snd := by
  obtain ⟨l, l', hsplit, -⟩ := List.lookup_eq_some_iff.mp (P.find_start hi)
  rw [hsplit]
  simp

/-! ### The parties and the network -/

/-- The subscriber, and all the datagrams that were sent. -/
structure Net where
  /-- The subscriber's session. -/
  session : Session
  /-- The callbacks that it has made. -/
  heard : List Callback
  /-- To the subscriber, by multicast or in reply to a request. -/
  downstream : List Bytes
  /-- To the re-request server. -/
  upstream : List Bytes

namespace Net

/-- The subscriber starts where the publication does. -/
def new (P : Publication) : Net where
  session := .start P.session P.first
  heard := []
  downstream := []
  upstream := []

/-- The sender sends a datagram. -/
def publish (net : Net) (d : Bytes) : Net := { net with downstream := net.downstream ++ [d] }

/-- A datagram comes to the subscriber, and the session's requests go to the server. -/
def arrive (net : Net) (d : Bytes) : Net :=
  match Snapshot.received d with
  | none => net
  | some p =>
    let r := net.session.onPacket p
    { net with
      session := r.1
      heard := net.heard ++ r.2
      upstream := net.upstream ++ (requests r.2).map encodeRequest }

/-- The packet with which the server replies to a datagram, if it does. -/
def reply (P : Publication) (d : Bytes) : Option Bytes :=
  match decodeRequest d with
  | .ok (some req) => P.find req.sequenceNumber
  | _ => none

/-- A datagram comes to the server. -/
def serve (P : Publication) (net : Net) (d : Bytes) : Net :=
  { net with downstream := net.downstream ++ (reply P d).toList }

end Net

/-- What happens next. -/
inductive Move where
  /-- The sender sends. -/
  | publish (d : Bytes)
  /-- A datagram comes to the subscriber. -/
  | arrive (d : Bytes)
  /-- A datagram comes to the server. -/
  | serve (d : Bytes)

/-- It can happen: what arrives has been sent. -/
def Move.Possible (P : Publication) (net : Net) : Move → Prop
  | .publish d => P.Sends d
  | .arrive d => d ∈ net.downstream
  | .serve d => d ∈ net.upstream

/-- What it does. -/
def Net.move (P : Publication) (net : Net) : Move → Net
  | .publish d => net.publish d
  | .arrive d => net.arrive d
  | .serve d => net.serve P d

/-- **The states of the exchange.** A datagram that was sent may arrive at any time, again, or never. -/
inductive Reachable (P : Publication) : Net → Prop
  /-- Nothing has been sent. -/
  | new : Reachable P (.new P)
  /-- One move more. -/
  | move {net m} : Reachable P net → m.Possible P net → Reachable P (net.move P m)

/-! ### What is received -/

/-- A packet with the messages of a batch. -/
structure IsBatch (P : Publication) (i : ℕ) (p : Packet) : Prop where
  /-- There is such a batch. -/
  lt : i * P.perPacket < P.messages.length
  /-- It is numbered as published. -/
  number : p.hdr.sequenceNumber = P.start i
  /-- It is not a control packet. -/
  data : ¬ p.hdr.IsControl
  /-- The blocks are the messages. -/
  blocks : p.blocks.map (·.data) = P.batch i

/-- What the subscriber makes of a datagram of the publication. -/
def IsPublished (P : Publication) (p : Packet) : Prop :=
  (p.hdr.IsControl ∧ p.hdr.sequenceNumber ≤ P.last) ∨ ∃ i, IsBatch P i p

theorem received_packet {i : ℕ} (hi : i * P.perPacket < P.messages.length) :
    ∃ p, Snapshot.received (P.packet i) = some p ∧ IsBatch P i p := by
  have hbatch := P.length_batch i
  have hpos := P.perPacket_pos
  have hle := P.perPacket_le
  obtain ⟨ranges, hdecode, hcount, hblocks⟩ := @decodeDownstream_encodeDownstream P.session (P.start i)
    (P.batch i) (by omega) (by omega)
    fun m hm => P.fits m (List.mem_of_mem_drop (List.mem_of_mem_take hm))
  refine ⟨_, by rw [Snapshot.received, Publication.packet, hdecode], hi, rfl, ?_, ?_⟩
  · rintro (h | h)
    · have hzero := congrArg UInt16.toNat h
      rw [hcount] at hzero
      exact absurd hzero (show (P.batch i).length ≠ 0 by omega)
    · have hend := congrArg UInt16.toNat h
      rw [hcount] at hend
      exact absurd hend (show (P.batch i).length ≠ 65535 by omega)
  · rw [List.map_map]
    exact hblocks

theorem received_control (session : SessionId) (seq : UInt64) {count : UInt16}
    (h : count = kHeartbeat ∨ count = kEndOfSession) :
    Snapshot.received (encodeControl session seq count) = some ⟨⟨session, seq, count⟩, []⟩ := by
  rw [Snapshot.received, decodeDownstream_encodeControl session seq h]
  rfl

theorem received_of_sends {d : Bytes} (h : P.Sends d) : ∃ p, Snapshot.received d = some p ∧ IsPublished P p := by
  rcases h with h | ⟨seq, count, hcontrol, hseq, rfl⟩
  · obtain ⟨i, hi, rfl⟩ := P.mem_packetsBySeq h
    obtain ⟨p, hp, hbatch⟩ := received_packet hi
    exact ⟨p, hp, .inr ⟨i, hbatch⟩⟩
  · exact ⟨_, received_control P.session seq hcontrol, .inl ⟨hcontrol, hseq⟩⟩

/-! ### What it carries -/

/-- Which messages are among consecutive blocks. -/
theorem inBlocks_iff {seq n : ℕ} {blocks : List MessageBlockView} {data : Bytes} :
    InBlocks seq blocks n data ↔ seq ≤ n ∧ (blocks.map (·.data))[n - seq]? = some data := by
  induction blocks generalizing seq with
  | nil => simp [InBlocks]
  | cons b blocks ih =>
    rw [InBlocks, ih, List.map_cons]
    rcases Nat.lt_trichotomy n seq with hlt | rfl | hgt
    · exact iff_of_false (by omega) (by omega)
    · simp only [le_refl, true_and, Nat.sub_self, List.getElem?_cons_zero, Option.some.injEq]
      constructor
      · rintro (h | ⟨h, -⟩)
        · exact h.symm
        · omega
      · exact fun h => .inl h.symm
    · rw [show n - seq = (n - (seq + 1)) + 1 by omega, List.getElem?_cons_succ]
      constructor
      · rintro (⟨rfl, -⟩ | h)
        · omega
        · exact ⟨hgt.le, h.2⟩
      · exact fun h => .inr ⟨hgt, h.2⟩

/-- **A batch carries its messages**, under their numbers. -/
theorem IsBatch.carries_iff {i n : ℕ} {p : Packet} {data : Bytes} (h : IsBatch P i p) :
    p.Carries n data ↔ P.first.toNat + i * P.perPacket ≤ n ∧ n < P.first.toNat + (i + 1) * P.perPacket ∧
      P.messages[n - P.first.toNat]? = some data := by
  have hstart := P.toNat_start h.lt.le
  rw [Packet.Carries, and_iff_right h.data, inBlocks_iff, h.number, hstart, h.blocks, Publication.batch,
    List.getElem?_take, List.getElem?_drop, Nat.succ_mul]
  constructor
  · rintro ⟨hle, hget⟩
    split_ifs at hget with hlt
    refine ⟨hle, by omega, ?_⟩
    rwa [show i * P.perPacket + (n - (P.first.toNat + i * P.perPacket)) = n - P.first.toNat by omega] at hget
  · rintro ⟨hle, hlt, hget⟩
    refine ⟨hle, ?_⟩
    rw [if_pos (by omega), show i * P.perPacket + (n - (P.first.toNat + i * P.perPacket)) = n - P.first.toNat by omega]
    exact hget

/-- What published packets carry was published. -/
theorem message_of_carried {packets : List Packet} (h : ∀ p ∈ packets, IsPublished P p) {n : ℕ} {data : Bytes}
    (hc : Carried packets n data) :
    P.first.toNat ≤ n ∧ P.messages[n - P.first.toNat]? = some data := by
  obtain ⟨p, hp, hcarries⟩ := hc
  rcases h p hp with ⟨hcontrol, -⟩ | ⟨i, hbatch⟩
  · exact absurd hcontrol hcarries.1
  · obtain ⟨hle, -, hget⟩ := hbatch.carries_iff.mp hcarries
    exact ⟨by omega, hget⟩

theorem agree_of_published {packets : List Packet} (h : ∀ p ∈ packets, IsPublished P p) : Agree packets := by
  intro n a b ha hb
  exact Option.some.inj ((message_of_carried h ha).2.symm.trans (message_of_carried h hb).2)

theorem IsPublished.noWrap {p : Packet} (h : IsPublished P p) : p.NoWrap := by
  intro hdata
  rcases h with ⟨hcontrol, -⟩ | ⟨i, hbatch⟩
  · exact absurd hcontrol hdata
  · have hlen : p.blocks.length = (P.batch i).length := by rw [← hbatch.blocks, List.length_map]
    have := P.noWrap
    have := hbatch.lt
    rw [hbatch.number, P.toNat_start hbatch.lt.le, hlen, P.length_batch]
    omega

/-! ### What the session does -/

namespace Session

theorem onPackets_concat (s : Session) (packets : List Packet) (p : Packet) :
    s.onPackets (packets ++ [p]) = (((s.onPackets packets).1.onPacket p).1,
      (s.onPackets packets).2 ++ ((s.onPackets packets).1.onPacket p).2) := by
  induction packets generalizing s with
  | nil => simp [onPackets]
  | cons q packets ih => simp [onPackets, ih, List.append_assoc]

theorem session_hold (s : Session) (seq : UInt64) (blocks : List MessageBlockView) :
    (s.hold seq blocks).session = s.session := by
  induction blocks generalizing s seq with
  | nil => rfl
  | cons b blocks ih =>
    unfold hold
    split_ifs <;> rw [ih]

/-- Delivering asks for nothing. -/
theorem deliverLoop_spec (fuel : ℕ) (s : Session) :
    (deliverLoop fuel s).1.session = s.session ∧ requests (deliverLoop fuel s).2 = [] := by
  induction fuel generalizing s with
  | zero => exact ⟨rfl, rfl⟩
  | succ fuel ih =>
    cases hl : s.pending.lookup s.nextExpected with
    | none =>
      rw [deliverLoop_none fuel hl]
      exact ⟨rfl, rfl⟩
    | some data =>
      rw [deliverLoop_some fuel hl]
      exact ih s.afterDelivery

theorem session_maybeRequestGap (s : Session) (seq : UInt64) : (s.maybeRequestGap seq).1.session = s.session := by
  unfold maybeRequestGap
  split_ifs <;> rfl

theorem requests_maybeRequestGap {s : Session} {seq : UInt64} {q : RequestPacket}
    (hq : q ∈ requests (s.maybeRequestGap seq).2) :
    q.session = s.session ∧ q.sequenceNumber = s.nextExpected ∧ s.nextExpected < seq := by
  unfold maybeRequestGap at hq
  split_ifs at hq with hlt
  · obtain rfl := List.mem_singleton.mp hq
    exact ⟨rfl, rfl, hlt⟩
  · cases hq

theorem session_onPacket (s : Session) (p : Packet) : (s.onPacket p).1.session = s.session := by
  unfold onPacket
  by_cases hctl : p.hdr.IsControl
  · rw [if_pos hctl]
    dsimp only
    split_ifs <;> exact session_maybeRequestGap s _
  · rw [if_neg hctl]
    dsimp only
    rw [deliverReady, (deliverLoop_spec _ _).1]
    split_ifs
    · exact session_hold s _ _
    · rw [session_maybeRequestGap, session_hold]

/-- **A request is for the next expected number**, when a packet is ahead of it. -/
theorem requests_onPacket {s : Session} {p : Packet} {q : RequestPacket} (hq : q ∈ requests (s.onPacket p).2) :
    q.session = s.session ∧ q.sequenceNumber = s.nextExpected ∧ s.nextExpected < p.hdr.sequenceNumber := by
  unfold onPacket at hq
  by_cases hctl : p.hdr.IsControl
  · rw [if_pos hctl] at hq
    exact requests_maybeRequestGap hq
  · rw [if_neg hctl] at hq
    dsimp only at hq
    rw [requests_append, deliverReady, (deliverLoop_spec _ _).2, List.append_nil] at hq
    split_ifs at hq
    · cases hq
    · obtain ⟨hsession, hseq, hlt⟩ := requests_maybeRequestGap hq
      rw [hold_nextExpected] at hseq hlt
      rw [session_hold] at hsession
      exact ⟨hsession, hseq, hlt⟩

/-- A heartbeat, or the end of the session, that is ahead is answered with a request. -/
theorem onPacket_control {s : Session} {p : Packet} (hctl : p.hdr.IsControl)
    (hahead : s.nextExpected < p.hdr.sequenceNumber) :
    (s.onPacket p).1.nextExpected = s.nextExpected ∧
      requests (s.onPacket p).2 = [⟨s.session, s.nextExpected,
        (min (p.hdr.sequenceNumber - s.nextExpected) 0xFFFF).toUInt16⟩] := by
  unfold onPacket maybeRequestGap
  rw [if_pos hctl, if_pos hahead]
  dsimp only
  exact ⟨by split_ifs <;> rfl, rfl⟩

end Session

/-! ### The invariant -/

/-- **What holds of every state**: the session has been fed published packets only, the sender and the server have
sent nothing else, and every request is for a packet of the table. -/
structure Net.Ok (P : Publication) (net : Net) : Prop where
  /-- What the session has been fed. -/
  history : ∃ packets, (∀ p ∈ packets, IsPublished P p) ∧
    (Session.start P.session P.first).onPackets packets = (net.session, net.heard)
  /-- It is still the session of the publication. -/
  session : net.session.session = P.session
  /-- What is on the way to the subscriber. -/
  downstream : ∀ d ∈ net.downstream, P.Sends d
  /-- What is on the way to the server. -/
  upstream : ∀ d ∈ net.upstream, ∃ i count, i * P.perPacket < P.messages.length ∧
    d = encodeRequest ⟨P.session, P.start i, count⟩

/-- Where the session is: it has delivered the first `k` messages, which are whole packets. -/
structure Net.Delivered (P : Publication) (net : Net) (k : ℕ) : Prop where
  /-- The next one is expected. -/
  next : net.session.nextExpected.toNat = P.first.toNat + k
  /-- The messages, under their numbers. -/
  numbers : (delivered net.heard).map (fun m => m.1.toNat) = List.range' P.first.toNat k
  /-- And nothing but them. -/
  messages : (delivered net.heard).map Prod.snd = P.messages.take k
  /-- They are whole packets. -/
  whole : ∃ i, k = min (i * P.perPacket) P.messages.length

variable {net : Net}

/-- The first number that does not come is the first of a packet, or the one after the last. -/
theorem whole_of_isLeast {packets : List Packet} (h : ∀ p ∈ packets, IsPublished P p) {n : ℕ}
    (hn : IsLeast {n | P.first.toNat ≤ n ∧ ∀ data, ¬ Carried packets n data} n) :
    ∃ k, n = P.first.toNat + k ∧ ∃ i, k = min (i * P.perPacket) P.messages.length := by
  obtain ⟨⟨hle, hnot⟩, hleast⟩ := hn
  refine ⟨n - P.first.toNat, by omega, ?_⟩
  rcases hle.eq_or_lt with rfl | hlt
  · exact ⟨0, by omega⟩
  -- the number before it has come, in a packet that does not have this one
  have hcame : ∃ data, Carried packets (n - 1) data := by
    by_contra hnone
    have := hleast ⟨by omega, not_exists.mp hnone⟩
    omega
  obtain ⟨data, p, hp, hcarries⟩ := hcame
  rcases h p hp with ⟨hcontrol, -⟩ | ⟨i, hbatch⟩
  · exact absurd hcontrol hcarries.1
  obtain ⟨hge, hlast, hget⟩ := hbatch.carries_iff.mp hcarries
  have hlen := (List.getElem?_eq_some_iff.mp hget).1
  have hout : ¬ (n < P.first.toNat + (i + 1) * P.perPacket ∧ n - P.first.toNat < P.messages.length) := by
    rintro ⟨hin, hshort⟩
    exact hnot _ ⟨p, hp, hbatch.carries_iff.mpr ⟨by omega, hin, List.getElem?_eq_getElem hshort⟩⟩
  exact ⟨i + 1, by omega⟩

/-- **What a session has delivered** that was fed published packets. -/
theorem Net.Ok.delivered (h : net.Ok P) : ∃ k, net.Delivered P k := by
  obtain ⟨packets, hpub, hrun⟩ := h.history
  obtain ⟨hkeeps, hwaits⟩ := Session.keeps_start P.session P.first (agree_of_published hpub) fun p hp => (hpub p hp).noWrap
  rw [hrun] at hkeeps hwaits
  obtain ⟨k, hk, i, hi⟩ := whole_of_isLeast hpub (hkeeps.isLeast hwaits)
  have hnumbers := hkeeps.numbers
  rw [List.map_map, hk, Nat.add_sub_cancel_left] at hnumbers
  have hlength : (Moldudp64.delivered net.heard).length = k := by
    simpa using congrArg List.length hnumbers
  refine ⟨k, hk, hnumbers, List.ext_getElem? fun j => ?_, i, hi⟩
  by_cases hj : j < k
  · -- the message at place `j` has the number `first + j`
    have hnumber : (Moldudp64.delivered net.heard)[j].1.toNat = P.first.toNat + j := by
      have hget := congrArg (fun l => l[j]?) hnumbers
      simpa [hlength, hj] using hget
    have hown := hkeeps.own ((Moldudp64.delivered net.heard)[j].1.toNat, (Moldudp64.delivered net.heard)[j].2)
      (List.mem_map.mpr ⟨(Moldudp64.delivered net.heard)[j], List.getElem_mem _, rfl⟩)
    obtain ⟨-, hget⟩ := message_of_carried hpub hown
    simp only [hnumber, Nat.add_sub_cancel_left] at hget
    simp [hlength, hj, hget]
  · rw [List.getElem?_eq_none (by simp [hlength]; omega), List.getElem?_eq_none (by simp; omega)]

/-- A session that is behind waits for the first message of a packet. -/
theorem Net.Delivered.expects {k : ℕ} (h : net.Delivered P k) (hlt : k < P.messages.length) :
    ∃ i, i * P.perPacket < P.messages.length ∧ net.session.nextExpected = P.start i := by
  obtain ⟨i, hi⟩ := h.whole
  have hk : i * P.perPacket = k := by omega
  refine ⟨i, by omega, ?_⟩
  rw [← UInt64.toNat_inj, h.next, P.toNat_start (by omega), hk]

theorem Net.Delivered.lt_of_ahead {k : ℕ} (h : net.Delivered P k) {seq : UInt64}
    (hahead : net.session.nextExpected < seq) (hseq : seq ≤ P.last) : k < P.messages.length := by
  have hnext := h.next
  have hlast := P.toNat_last
  rw [UInt64.lt_iff_toNat_lt] at hahead
  rw [UInt64.le_iff_toNat_le] at hseq
  omega

theorem IsPublished.le_last {p : Packet} (h : IsPublished P p) : p.hdr.sequenceNumber ≤ P.last := by
  rcases h with ⟨-, hle⟩ | ⟨i, hbatch⟩
  · exact hle
  · rw [hbatch.number, UInt64.le_iff_toNat_le, P.toNat_start hbatch.lt.le, P.toNat_last]
    have := hbatch.lt
    omega

/-- What the server replies with to a request of the exchange. -/
theorem reply_start {i : ℕ} (hi : i * P.perPacket < P.messages.length) (session : SessionId) (count : UInt16) :
    Net.reply P (encodeRequest ⟨session, P.start i, count⟩) = some (P.packet i) := by
  have hdecode := decodeRequest_encodeRequest ⟨session, P.start i, count⟩ []
  rw [List.append_nil] at hdecode
  rw [Net.reply, hdecode]
  exact P.find_start hi

namespace Net

theorem ok_new (P : Publication) : (Net.new P).Ok P where
  history := ⟨[], by simp, rfl⟩
  session := rfl
  downstream := by simp [new]
  upstream := by simp [new]

/-- **A packet comes.** -/
theorem Ok.arrive (h : net.Ok P) {d : Bytes} (hd : d ∈ net.downstream) : (net.arrive d).Ok P := by
  obtain ⟨p, hreceived, hp⟩ := received_of_sends (h.downstream d hd)
  obtain ⟨packets, hpub, hrun⟩ := h.history
  obtain ⟨k, hk⟩ := h.delivered
  rw [Net.arrive, hreceived]
  refine ⟨⟨packets ++ [p], ?_, ?_⟩, ?_, h.downstream, ?_⟩
  · intro q hq
    rcases List.mem_append.mp hq with hq | hq
    · exact hpub q hq
    · rwa [List.mem_singleton.mp hq]
  · rw [Session.onPackets_concat, hrun]
  · exact (Session.session_onPacket _ p).trans h.session
  · intro d hd
    rcases List.mem_append.mp hd with hd | hd
    · exact h.upstream d hd
    · obtain ⟨q, hq, rfl⟩ := List.mem_map.mp hd
      obtain ⟨hsession, hseq, hahead⟩ := Session.requests_onPacket hq
      obtain ⟨i, hi, hnext⟩ := hk.expects (hk.lt_of_ahead hahead hp.le_last)
      refine ⟨i, q.requestedMessageCount, hi, ?_⟩
      rw [← h.session, ← hnext, ← hsession, ← hseq]

/-- **Whatever happens next**, the invariant is kept. -/
theorem Ok.move (h : net.Ok P) {m : Move} (hm : m.Possible P net) : (net.move P m).Ok P := by
  cases m with
  | publish d =>
    refine ⟨h.history, h.session, fun d' hd' => ?_, h.upstream⟩
    rcases List.mem_append.mp hd' with hd' | hd'
    · exact h.downstream d' hd'
    · rw [List.mem_singleton.mp hd']
      exact hm
  | arrive d => exact h.arrive hm
  | serve d =>
    obtain ⟨i, count, hi, rfl⟩ := h.upstream d hm
    refine ⟨h.history, h.session, fun d' hd' => ?_, h.upstream⟩
    rw [Net.move, serve, reply_start hi] at hd'
    rcases List.mem_append.mp hd' with hd' | hd'
    · exact h.downstream d' hd'
    · rw [List.mem_singleton.mp hd']
      exact .inl (P.packet_mem hi)

end Net

theorem Reachable.ok (h : Reachable P net) : net.Ok P := by
  induction h with
  | new => exact Net.ok_new P
  | move _ hm ih => exact ih.move hm

/-! ### What is sent -/

namespace Net

/-- What a move sends to the subscriber. -/
def toSubscriber (P : Publication) : Move → List Bytes
  | .publish d => [d]
  | .arrive _ => []
  | .serve d => (reply P d).toList

/-- What a move sends to the server. -/
def toServer (net : Net) : Move → List Bytes
  | .arrive d =>
    match Snapshot.received d with
    | none => []
    | some p => (requests (net.session.onPacket p).2).map encodeRequest
  | .publish _ | .serve _ => []

theorem sent_move (net : Net) (m : Move) :
    (net.move P m).downstream = net.downstream ++ toSubscriber P m ∧
      (net.move P m).upstream = net.upstream ++ net.toServer m := by
  cases m with
  | publish d => exact ⟨rfl, (List.append_nil _).symm⟩
  | serve d => exact ⟨rfl, (List.append_nil _).symm⟩
  | arrive d =>
    rw [move, arrive, toSubscriber, toServer]
    cases Snapshot.received d with
    | none => exact ⟨(List.append_nil _).symm, (List.append_nil _).symm⟩
    | some p => exact ⟨(List.append_nil _).symm, rfl⟩

end Net

/-! ### A packet that is lost -/

/-- A sell order comes to rest. -/
def soldAB : Mdfeed.MDEvent :=
  { type := .add, side := .sell, orderId := 2, symbol := Mdfeed.symbolPad [65, 66], price := 103, qty := 3 }

/-- One event, in a packet of its own; another one has been published before. -/
def onePacket : Publication where
  session := Vector.replicate kSessionLen 65
  first := 2
  messages := [Mdfeed.encode soldAB]
  perPacket := 1
  perPacket_pos := by decide
  perPacket_le := by decide
  fits := by decide +kernel
  noWrap := by decide

/-- The packet is lost; the heartbeat that comes is answered with a request, the request with the packet, and then
there are only heartbeats. -/
def lostOnce : ℕ → Move
  | 0 => .publish (onePacket.packet 0)
  | 1 => .publish (encodeHeartbeat onePacket.session onePacket.last)
  | 2 => .arrive (encodeHeartbeat onePacket.session onePacket.last)
  | 3 => .serve (encodeRequest ⟨onePacket.session, 2, 1⟩)
  | 4 => .arrive (onePacket.packet 0)
  | t + 5 =>
    if t % 2 = 0 then .publish (encodeHeartbeat onePacket.session onePacket.last)
    else .arrive (encodeHeartbeat onePacket.session onePacket.last)

/-- The state after so many of these moves. -/
def afterLoss : ℕ → Net := statesOf (Net.move onePacket) (.new onePacket) lostOnce

theorem heartbeat_sent (t : ℕ) :
    encodeHeartbeat onePacket.session onePacket.last ∈ (afterLoss (t + 2)).downstream := by
  induction t with
  | zero => decide +kernel
  | succ t ih =>
    rw [afterLoss, statesOf, (Net.sent_move _ _).1]
    exact List.mem_append_left _ ih

theorem lostOnce_possible (t : ℕ) : (lostOnce t).Possible onePacket (afterLoss t) := by
  have hheartbeat : onePacket.Sends (encodeHeartbeat onePacket.session onePacket.last) :=
    .inr ⟨onePacket.last, kHeartbeat, .inl rfl, UInt64.le_refl _, rfl⟩
  match t with
  | 0 => exact .inl (onePacket.packet_mem (by decide))
  | 1 => exact hheartbeat
  | 2 => exact heartbeat_sent 0
  | 3 => show _ ∈ (afterLoss 3).upstream; decide +kernel
  | 4 => show _ ∈ (afterLoss 4).downstream; decide +kernel
  | t + 5 =>
    rw [lostOnce]
    split_ifs
    · exact hheartbeat
    · exact heartbeat_sent (t + 3)

theorem reachable_afterLoss (t : ℕ) : Reachable onePacket (afterLoss t) := by
  induction t with
  | zero => exact .new
  | succ t ih => exact ih.move (lostOnce_possible t)

/-! ### Whatever the network does -/

/-- **Nothing is lost, repeated or reordered** by the time it is delivered, in any state of the exchange: the
session has delivered the first so many messages, each with its own bytes and under its own number, and expects
the next one; these are whole packets. -/
theorem Reachable.safe (h : Reachable P net) :
    ∃ k, net.session.nextExpected.toNat = P.first.toNat + k ∧
      (delivered net.heard).map (fun m => m.1.toNat) = List.range' P.first.toNat k ∧
      (delivered net.heard).map Prod.snd = P.messages.take k ∧
      ∃ i, k = min (i * P.perPacket) P.messages.length := by
  obtain ⟨k, hk⟩ := h.ok.delivered
  exact ⟨k, hk.next, hk.numbers, hk.messages, hk.whole⟩

/-- When the lost packet has come, its message has been delivered. -/
theorem Reachable.safe_afterLoss : (delivered (afterLoss 5).heard = [(2, Mdfeed.encode soldAB)]) ∧
    ∃ k, (afterLoss 5).session.nextExpected.toNat = onePacket.first.toNat + k ∧
      (delivered (afterLoss 5).heard).map (fun m => m.1.toNat) = List.range' onePacket.first.toNat k ∧
      (delivered (afterLoss 5).heard).map Prod.snd = onePacket.messages.take k ∧
      ∃ i, k = min (i * onePacket.perPacket) onePacket.messages.length :=
  ⟨by decide +kernel, Reachable.safe (reachable_afterLoss 5)⟩

/-- **Every request is answered**, with the packet that begins with the message that it asks for first. -/
theorem Reachable.requests_answered (h : Reachable P net) {d : Bytes} (hd : d ∈ net.upstream) :
    ∃ q pkt p, decodeRequest d = .ok (some q) ∧ q.session = P.session ∧ P.find q.sequenceNumber = some pkt ∧
      Snapshot.received pkt = some p ∧ p.hdr.sequenceNumber = q.sequenceNumber ∧
      ∃ data, p.Carries q.sequenceNumber.toNat data := by
  obtain ⟨i, count, hi, rfl⟩ := h.ok.upstream d hd
  obtain ⟨p, hreceived, hbatch⟩ := received_packet hi
  have hdecode := decodeRequest_encodeRequest ⟨P.session, P.start i, count⟩ []
  rw [List.append_nil] at hdecode
  refine ⟨_, P.packet i, p, hdecode, rfl, P.find_start hi, hreceived, hbatch.number, P.messages[i * P.perPacket], ?_⟩
  have hpos := P.perPacket_pos
  rw [hbatch.carries_iff, P.toNat_start hi.le, Nat.succ_mul, Nat.add_sub_cancel_left]
  exact ⟨le_rfl, by omega, List.getElem?_eq_getElem hi⟩

/-- The request that the heartbeat has caused is answered. -/
theorem Reachable.requests_answered_afterLoss :
    ∃ q pkt p, decodeRequest (encodeRequest ⟨onePacket.session, 2, 1⟩) = .ok (some q) ∧ q.session = onePacket.session ∧
      onePacket.find q.sequenceNumber = some pkt ∧ Snapshot.received pkt = some p ∧
      p.hdr.sequenceNumber = q.sequenceNumber ∧ ∃ data, p.Carries q.sequenceNumber.toNat data :=
  Reachable.requests_answered (reachable_afterLoss 3) (lostOnce_possible 3)

end MatchingEngine.Moldudp64
