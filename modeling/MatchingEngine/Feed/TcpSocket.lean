import MatchingEngine.Feed.Snapshot
import MatchingEngine.Foundation.Outcome

/-!
# A snapshot over TCP

`cpp/feed/tcp_socket.h`, and the exchange over it in `test_snapshot_recovery.cpp`: the server
sends the length of the encoded snapshot in eight bytes and then the snapshot, the client reads
eight bytes and then as many as they say. A stream has no message boundaries: each call of
`send` and of `recv` moves some of the bytes, as many as the kernel likes, or fails. What the
kernel does is a function of the number of the call; that it moves no byte stands for failure,
and for the end of the stream.

`fetch_serve`: whatever the calls do on both sides, the client gets the server's snapshot or an
exception, and it gets the snapshot if no call fails.
-/

namespace MatchingEngine.Netfeed

open Foundation Moldudp64 Snapshot

/-- How many bytes each call may move. -/
abbrev Kernel := ℕ → ℕ

/-! ### The loops -/

/-- The loop of `send_all`, over what is left: what has been sent when it ends, and whether it has thrown. Every
round that does not throw sends a byte. -/
def sendLoop (kernel : Kernel) : ℕ → ℕ → Bytes → Bytes × Bool
  | 0, _, _ => ([], false)
  | fuel + 1, call, left =>
    if left.isEmpty then ([], false)
    else
      let n := min (kernel call) left.length
      if n = 0 then ([], true)
      else
        let r := sendLoop kernel fuel (call + 1) (left.drop n)
        (left.take n ++ r.1, r.2)

/-- `send_all`. -/
def sendAll (kernel : Kernel) (call : ℕ) (data : Bytes) : Bytes × Bool := sendLoop kernel data.length call data

/-- The exception of `recv_exact`: how many bytes it was to read, and how many it has. -/
structure PeerClosed where
  /-- `len`. -/
  len : ℕ
  /-- `got`. -/
  got : ℕ
  deriving DecidableEq

/-- A connection, at the end that reads. -/
structure Incoming where
  /-- The bytes that are still to come before the peer closes. -/
  stream : Bytes
  /-- The number of the next call of `recv`. -/
  call : ℕ

/-- The loop of `recv_exact`. Every round that does not throw reads a byte. -/
def recvLoop (kernel : Kernel) (len : ℕ) : ℕ → Bytes → Incoming → Except PeerClosed (Bytes × Incoming)
  | 0, buf, conn => .ok (buf, conn)
  | fuel + 1, buf, conn =>
    if buf.length < len then
      let n := min (kernel conn.call) (min (len - buf.length) conn.stream.length)
      if n = 0 then .error ⟨len, buf.length⟩
      else recvLoop kernel len fuel (buf ++ conn.stream.take n) ⟨conn.stream.drop n, conn.call + 1⟩
    else .ok (buf, conn)

/-- `recv_exact`. -/
def recvExact (kernel : Kernel) (len : ℕ) (conn : Incoming) : Except PeerClosed (Bytes × Incoming) :=
  recvLoop kernel len len [] conn

/-! ### The exchange -/

/-- The server's thread: what it has sent, and whether it has thrown. The calls for the payload are numbered from
`call` on. -/
def serve (kernel : Kernel) (call : ℕ) (asOfSeq : UInt64) (rows : List SnapshotRow) : Bytes × Bool :=
  let payload := encodeSnapshot asOfSeq rows
  let prefixed := sendAll kernel 0 (putBe64 (UInt64.ofNat payload.length))
  if prefixed.2 then prefixed
  else
    let sent := sendAll kernel call payload
    (prefixed.1 ++ sent.1, sent.2)

/-- What the client reads, with `none` where `decode_snapshot` returns false. -/
def fetch (kernel : Kernel) (stream : Bytes) : Except PeerClosed (Option (UInt64 × List SnapshotRow)) := do
  let (lenPrefix, conn) ← recvExact kernel 8 ⟨stream, 0⟩
  let (payload, _) ← recvExact kernel (getBe64 lenPrefix).toNat conn
  .ok (decodeSnapshot payload)

/-! ### What the loops do -/

variable {kernel : Kernel} {len : ℕ} {conn : Incoming}

theorem sendLoop_spec (kernel : Kernel) (fuel call : ℕ) (left : Bytes) (hfuel : left.length ≤ fuel) :
    (sendLoop kernel fuel call left).1 <+: left ∧
      ((sendLoop kernel fuel call left).2 = false → (sendLoop kernel fuel call left).1 = left) ∧
      ((∀ i, 0 < kernel i) → (sendLoop kernel fuel call left).2 = false) := by
  induction fuel generalizing call left with
  | zero =>
    obtain rfl := List.length_eq_zero_iff.mp (Nat.le_zero.mp hfuel)
    exact ⟨List.prefix_rfl, fun _ => rfl, fun _ => rfl⟩
  | succ fuel ih =>
    rw [sendLoop]
    dsimp only
    split_ifs with hempty hn
    · rw [List.isEmpty_iff.mp hempty]
      exact ⟨List.prefix_rfl, fun _ => rfl, fun _ => rfl⟩
    · have hpos : 0 < left.length := List.length_pos_iff.mpr fun h => hempty (List.isEmpty_iff.mpr h)
      refine ⟨List.nil_prefix, fun h => absurd h (by simp), fun hlive => ?_⟩
      have := hlive call
      omega
    · obtain ⟨hfirst, hall, hlive⟩ := ih (call + 1) (left.drop (min (kernel call) left.length))
        (by rw [List.length_drop]; omega)
      refine ⟨?_, fun h => ?_, hlive⟩
      · conv_rhs => rw [← List.take_append_drop (min (kernel call) left.length) left]
        exact (List.prefix_append_right_inj _).mpr hfirst
      · dsimp only at h ⊢
        rw [hall h, List.take_append_drop]

/-- **`send_all` sends everything or throws**, and then it has sent a first part. -/
theorem sendAll_spec (kernel : Kernel) (call : ℕ) (data : Bytes) :
    (sendAll kernel call data).1 <+: data ∧ ((sendAll kernel call data).2 = false → (sendAll kernel call data).1 = data) ∧
      ((∀ i, 0 < kernel i) → (sendAll kernel call data).2 = false) :=
  sendLoop_spec kernel data.length call data le_rfl

theorem recvLoop_spec (kernel : Kernel) {fuel : ℕ} {buf : Bytes} (hbuf : buf.length ≤ len) (hfuel : len - buf.length ≤ fuel) :
    Ends (fun _ => len - buf.length ≤ conn.stream.length → ∃ i, kernel i = 0) (recvLoop kernel len fuel buf conn)
      fun r => len - buf.length ≤ conn.stream.length ∧ r.1 = buf ++ conn.stream.take (len - buf.length) ∧
        r.2.stream = conn.stream.drop (len - buf.length) := by
  induction fuel generalizing buf conn with
  | zero =>
    have hdone : len - buf.length = 0 := Nat.le_zero.mp hfuel
    simp [recvLoop, hdone]
  | succ fuel ih =>
    rw [recvLoop]
    dsimp only
    split_ifs with hlt hn
    · exact fun hlong => ⟨conn.call, by omega⟩
    · -- `n` bytes are read, and then the others
      obtain ⟨n, hdef⟩ : ∃ n, n = min (kernel conn.call) (min (len - buf.length) conn.stream.length) := ⟨_, rfl⟩
      rw [← hdef] at hn ⊢
      have hread : (buf ++ conn.stream.take n).length = buf.length + n := by
        rw [List.length_append, List.length_take]
        omega
      have hrest := @ih ⟨conn.stream.drop n, conn.call + 1⟩ (buf ++ conn.stream.take n)
        (by omega) (by omega)
      have hleft : len - (buf.length + n) = len - buf.length - n := by omega
      rw [hread, hleft, List.length_drop] at hrest
      refine (hrest.mono ?_).weaken fun _ hfail hlong => hfail (Nat.sub_le_sub_right hlong n)
      rintro ⟨got, conn'⟩ ⟨hlong, rfl, hstream⟩
      refine ⟨by omega, ?_, ?_⟩
      · rw [List.append_assoc, ← List.take_add, Nat.add_sub_cancel' (by omega)]
      · rw [hstream, List.drop_drop, Nat.add_sub_cancel' (by omega)]
    · have hdone : len - buf.length = 0 := by omega
      simp [hdone]

/-- **`recv_exact` reads just so many bytes**, or throws: because fewer are to come, or because a call fails. -/
theorem recvExact_spec (kernel : Kernel) (len : ℕ) (conn : Incoming) :
    Ends (fun _ => len ≤ conn.stream.length → ∃ i, kernel i = 0) (recvExact kernel len conn)
      fun r => len ≤ conn.stream.length ∧ r.1 = conn.stream.take len ∧ r.2.stream = conn.stream.drop len :=
  recvLoop_spec kernel (Nat.zero_le len) le_rfl

/-! ### What the client gets -/

variable {rows : List SnapshotRow} {asOfSeq : UInt64}

theorem length_encodeSnapshot (asOfSeq : UInt64) (rows : List SnapshotRow) :
    (encodeSnapshot asOfSeq rows).length = 12 + rows.length * kRowLen := by
  simp [encodeSnapshot, putCount, List.length_flatMap]
  omega

/-- What the server has sent begins like the length and the payload, and is all of that unless it has thrown. -/
theorem serve_spec (kernel : Kernel) (call : ℕ) (asOfSeq : UInt64) (rows : List SnapshotRow) :
    let payload := encodeSnapshot asOfSeq rows
    (serve kernel call asOfSeq rows).1 <+: putBe64 (UInt64.ofNat payload.length) ++ payload ∧
      ((∀ i, 0 < kernel i) →
        (serve kernel call asOfSeq rows).1 = putBe64 (UInt64.ofNat payload.length) ++ payload) := by
  intro payload
  obtain ⟨hlen, hlenAll, hlenLive⟩ := sendAll_spec kernel 0 (putBe64 (UInt64.ofNat payload.length))
  obtain ⟨hpay, hpayAll, hpayLive⟩ := sendAll_spec kernel call payload
  rw [serve]
  dsimp only
  split_ifs with hthrew
  · refine ⟨hlen.trans (List.prefix_append _ _), fun hlive => ?_⟩
    rw [hlenLive hlive] at hthrew
    cases hthrew
  · have hsent := hlenAll (Bool.eq_false_iff.mpr hthrew)
    refine ⟨?_, fun hlive => ?_⟩
    · rw [hsent]
      exact (List.prefix_append_right_inj _).mpr hpay
    · rw [hsent, hpayAll (hpayLive hlive)]

/-- The first eight bytes of the stream say how long the payload is, and the stream is no longer than that. -/
structure Framed (payload stream : Bytes) : Prop where
  /-- The length is one of 64 bits. -/
  size : payload.length < 2 ^ 64
  /-- The server has sent all of it, or a first part. -/
  sent : stream <+: putBe64 (UInt64.ofNat payload.length) ++ payload

/-- The length is read back. -/
theorem Framed.length_eq {payload stream : Bytes} (h : Framed payload stream) (hlong : 8 ≤ stream.length) :
    (getBe64 (stream.take 8)).toNat = payload.length := by
  obtain ⟨rest, hrest⟩ := h.sent
  have htake := congrArg (List.take 8) hrest
  rw [List.take_append_of_le_length hlong, List.take_left' (length_putBe64 _)] at htake
  rw [htake, ← List.append_nil (putBe64 _), getBe64_putBe64, UInt64.toNat_ofNat_of_lt' h.size]

/-- A stream that is long enough is all of it. -/
theorem Framed.whole {payload stream : Bytes} (h : Framed payload stream) (hlong : 8 + payload.length ≤ stream.length) :
    stream = putBe64 (UInt64.ofNat payload.length) ++ payload :=
  h.sent.eq_of_length_le (by rw [List.length_append, length_putBe64]; exact hlong)

theorem framed_serve (kernel : Kernel) (call : ℕ) (asOfSeq : UInt64) {rows : List SnapshotRow} (hcount : rows.length < 2 ^ 32) :
    Framed (encodeSnapshot asOfSeq rows) (serve kernel call asOfSeq rows).1 where
  size := by
    rw [length_encodeSnapshot]
    simp only [kRowLen]
    omega
  sent := (serve_spec kernel call asOfSeq rows).1

/-- What the client reads is what it decodes. -/
theorem fetch_of_framed {payload stream : Bytes} (h : Framed payload stream) {got : Option (UInt64 × List SnapshotRow)}
    (hgot : fetch kernel stream = .ok got) : got = decodeSnapshot payload := by
  obtain ⟨⟨lenPrefix, conn⟩, hr, hgot⟩ := bind_eq_ok.mp hgot
  obtain ⟨⟨body, conn'⟩, hr', hgot⟩ := bind_eq_ok.mp hgot
  obtain ⟨hlong, hpre, hconn⟩ := (recvExact_spec kernel 8 ⟨stream, 0⟩).elim hr
  have hsecond := (recvExact_spec kernel (getBe64 lenPrefix).toNat conn).elim hr'
  dsimp only at hpre hconn hlong hsecond
  rw [hpre, h.length_eq hlong, hconn, List.length_drop] at hsecond
  obtain ⟨henough, hbody, -⟩ := hsecond
  rw [h.whole (by omega), List.drop_left' (length_putBe64 _), List.take_length] at hbody
  rw [← Except.ok.inj hgot, hbody]

/-- No call of the client's kernel fails, and all has been sent. -/
theorem fetch_of_live {payload : Bytes} (hsize : payload.length < 2 ^ 64) (hlive : ∀ i, 0 < kernel i) :
    fetch kernel (putBe64 (UInt64.ofNat payload.length) ++ payload) = .ok (decodeSnapshot payload) := by
  have hframed : Framed payload (putBe64 (UInt64.ofNat payload.length) ++ payload) := ⟨hsize, List.prefix_rfl⟩
  have height := length_putBe64 (UInt64.ofNat payload.length)
  have hnot : ¬ ∃ i, kernel i = 0 := fun ⟨i, hi⟩ => (hlive i).ne' hi
  have hlength : (putBe64 (UInt64.ofNat payload.length) ++ payload).length = 8 + payload.length := by
    rw [List.length_append, height]
  obtain ⟨⟨lenPrefix, conn⟩, hr, hlong, hpre, hconn⟩ :=
    ((recvExact_spec kernel 8 ⟨putBe64 (UInt64.ofNat payload.length) ++ payload, 0⟩).weaken fun _ hfail =>
      hnot (hfail (by dsimp only; omega))).exists_ok fun _ => id
  dsimp only at hpre hconn hlong
  have hnum : (getBe64 lenPrefix).toNat = payload.length := by rw [hpre, hframed.length_eq hlong]
  have hconn' : conn.stream = payload := by rw [hconn, List.drop_left' height]
  obtain ⟨⟨body, conn'⟩, hr', -, hbody, -⟩ :=
    ((recvExact_spec kernel payload.length conn).weaken fun _ hfail => hnot (hfail (by rw [hconn']))).exists_ok
      fun _ => id
  dsimp only at hbody
  rw [hconn', List.take_length] at hbody
  rw [fetch, hr, ok_bind]
  dsimp only
  rw [hnum, hr', ok_bind]
  dsimp only
  rw [hbody]

/-- **A snapshot comes whole or not at all.** Whatever the calls on both sides do, the client gets the server's
snapshot or an exception; with no failing call it gets the snapshot. -/
theorem fetch_serve (server client : Kernel) (call : ℕ) (asOfSeq : UInt64) {rows : List SnapshotRow}
    (hprice : ∀ r ∈ rows, InI64 r.price) (hcount : rows.length < 2 ^ 32) :
    (∀ got, fetch client (serve server call asOfSeq rows).1 = .ok got → got = some (asOfSeq, rows)) ∧
      ((∀ i, 0 < server i) → (∀ i, 0 < client i) →
        fetch client (serve server call asOfSeq rows).1 = .ok (some (asOfSeq, rows))) := by
  have hframed := framed_serve server call asOfSeq hcount
  have hdecode := decodeSnapshot_encodeSnapshot asOfSeq hprice hcount
  constructor
  · intro got hgot
    rw [fetch_of_framed hframed hgot, hdecode]
  · intro hserver hclient
    rw [(serve_spec server call asOfSeq rows).2 hserver, fetch_of_live hframed.size hclient, hdecode]

/-- A row of a snapshot. -/
def oneRow : SnapshotRow := ⟨Mdfeed.symbolPad [65, 66], 7, .buy, 100, 5⟩

/-- It is sent byte by byte, and read three bytes at a time. -/
theorem fetch_serve_one :
    fetch (fun _ => 3) (serve (fun _ => 1) 8 5 [oneRow]).1 = .ok (some (5, [oneRow])) :=
  have hprice : ∀ r ∈ [oneRow], InI64 r.price := by decide
  (fetch_serve (fun _ => 1) (fun _ => 3) 8 5 hprice (by norm_num)).2 (fun _ => Nat.one_pos) fun _ => by norm_num

end MatchingEngine.Netfeed
