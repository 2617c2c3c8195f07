import MatchingEngine.Feed.MoldUdp64
import MatchingEngine.Foundation.InOrder
import Mathlib.Data.List.AList

/-!
# A MoldUDP64 session

`cpp/feed/moldudp64_session.h`: the receiving end of one downstream session. Packets are
fed to `on_packet` as they arrive; messages that come early are held, late ones are
dropped, and what can be delivered in sequence is handed to the message callback.

The callbacks a call makes are listed in the order in which it makes them. The theorem
about whole runs is `Session.delivers_in_order`: what has been delivered is what the
packets so far carry from the start on, up to the first number that none of them carries,
whatever the order in which they came.
-/

namespace MatchingEngine.Moldudp64

open Foundation

/-- `std::map::emplace`: an entry that is there stays as it is. -/
def emplace {K V : Type*} [DecidableEq K] (m : AList fun _ : K => V) (k : K) (v : V) : AList fun _ : K => V :=
  if k ∈ m then m else m.insert k v

theorem lookup_emplace {K V : Type*} [DecidableEq K] (m : AList fun _ : K => V) (k k' : K) (v : V) :
    (emplace m k v).lookup k' = if k' = k ∧ k ∉ m then some v else m.lookup k' := by
  unfold emplace
  split_ifs with h₁ h₂ h₂
  · exact absurd h₁ h₂.2
  · rfl
  · rw [h₂.1, AList.lookup_insert]
  · rw [AList.lookup_insert_ne fun h => h₂ ⟨h, h₁⟩]

theorem length_erase {K V : Type*} [DecidableEq K] {m : AList fun _ : K => V} {k : K} (h : k ∈ m) :
    (m.erase k).entries.length + 1 = m.entries.length := by
  obtain ⟨e, he, rfl⟩ := List.mem_map.mp (AList.mem_keys.mp h)
  have hl : (m.erase e.1).entries.length = m.entries.length - 1 :=
    List.length_eraseP_of_mem he (decide_eq_true rfl)
  rw [hl]
  have : 0 < m.entries.length := List.length_pos_of_mem he
  omega

/-- `class Session`. The counter of gaps is a natural number. -/
structure Session where
  /-- `session_`. -/
  session : SessionId
  /-- `next_expected_`. -/
  nextExpected : UInt64
  /-- `ended_`. -/
  ended : Bool
  /-- `gaps_detected_`. -/
  gapsDetected : ℕ
  /-- `pending_`: messages received ahead of the current gap. -/
  pending : AList fun _ : UInt64 => Bytes

/-- A callback made by a session. -/
inductive Callback where
  /-- `on_message_(seq, data, len)`. -/
  | message (seq : UInt64) (data : Bytes) (len : UInt16)
  /-- `on_request_needed_(req)`. -/
  | request (req : RequestPacket)
  deriving DecidableEq

/-- What `decode_downstream` makes of a packet. -/
structure Packet where
  /-- The header. -/
  hdr : DownstreamHeader
  /-- The message blocks. -/
  blocks : List MessageBlockView
  deriving DecidableEq

namespace Session

/-- The constructor. -/
def start (session : SessionId) (startSeq : UInt64) : Session where
  session := session
  nextExpected := startSeq
  ended := false
  gapsDetected := 0
  pending := ∅

/-- `maybe_request_gap_`. -/
def maybeRequestGap (s : Session) (observedSeq : UInt64) : Session × List Callback :=
  if s.nextExpected < observedSeq then
    ({ s with gapsDetected := s.gapsDetected + 1 },
      [.request { session := s.session
                  sequenceNumber := s.nextExpected
                  requestedMessageCount := (min (observedSeq - s.nextExpected) 0xFFFF).toUInt16 }])
  else (s, [])

/-- The expected message has been handed to the callback: `pending_.erase(it)` and `++next_expected_`. -/
def afterDelivery (s : Session) : Session :=
  { s with pending := s.pending.erase s.nextExpected, nextExpected := s.nextExpected + 1 }

/-- The loop of `deliver_ready_`. Every round takes a message out of `pending`. -/
def deliverLoop : ℕ → Session → Session × List Callback
  | 0, s => (s, [])
  | fuel + 1, s =>
    match s.pending.lookup s.nextExpected with
    | none => (s, [])
    | some data =>
      let r := deliverLoop fuel s.afterDelivery
      (r.1, .message s.nextExpected data (UInt16.ofNat data.length) :: r.2)

/-- `deliver_ready_`. -/
def deliverReady (s : Session) : Session × List Callback := deliverLoop s.pending.entries.length s

/-- The loop of `on_packet` over the message blocks. -/
def hold (s : Session) : UInt64 → List MessageBlockView → Session
  | _, [] => s
  | seq, b :: blocks =>
    if seq < s.nextExpected then s.hold (seq + 1) blocks
    else { s with pending := emplace s.pending seq b.data }.hold (seq + 1) blocks

/-- `on_packet`. -/
def onPacket (s : Session) (p : Packet) : Session × List Callback :=
  if p.hdr.IsControl then
    let r := s.maybeRequestGap p.hdr.sequenceNumber
    (if p.hdr.messageCount = kEndOfSession then { r.1 with ended := true } else r.1, r.2)
  else
    let s₁ := s.hold p.hdr.sequenceNumber p.blocks
    let r₁ := if p.blocks.isEmpty then (s₁, []) else s₁.maybeRequestGap p.hdr.sequenceNumber
    let r₂ := r₁.1.deliverReady
    (r₂.1, r₁.2 ++ r₂.2)

/-- Packet after packet. -/
def onPackets (s : Session) : List Packet → Session × List Callback
  | [] => (s, [])
  | p :: packets =>
    let r := s.onPacket p
    let r' := r.1.onPackets packets
    (r'.1, r.2 ++ r'.2)

/-- A message is held under that number. -/
def Holds (s : Session) (n : ℕ) (data : Bytes) : Prop :=
  ∃ seq : UInt64, seq.toNat = n ∧ s.pending.lookup seq = some data

/-- The expected message is not held. -/
def Waits (s : Session) : Prop := s.pending.lookup s.nextExpected = none

end Session

/-- The messages delivered: the number of each, and the bytes that the callback is shown. -/
def delivered (cs : List Callback) : List (UInt64 × Bytes) :=
  cs.filterMap fun
    | .message seq data len => some (seq, data.take len.toNat)
    | .request _ => none

@[simp] theorem delivered_nil : delivered [] = [] := rfl

@[simp] theorem delivered_append (cs cs' : List Callback) :
    delivered (cs ++ cs') = delivered cs ++ delivered cs' := List.filterMap_append

@[simp] theorem delivered_message (seq : UInt64) (data : Bytes) (len : UInt16) (cs : List Callback) :
    delivered (.message seq data len :: cs) = (seq, data.take len.toNat) :: delivered cs := rfl

/-! ### What packets carry -/

/-- A message is among the blocks that are numbered from `seq` on. -/
def InBlocks : ℕ → List MessageBlockView → ℕ → Bytes → Prop
  | _, [], _, _ => False
  | seq, b :: blocks, n, data => (n = seq ∧ data = b.data) ∨ InBlocks (seq + 1) blocks n data

namespace Packet

/-- A data packet carries its blocks, under consecutive numbers. -/
def Carries (p : Packet) (n : ℕ) (data : Bytes) : Prop :=
  ¬ p.hdr.IsControl ∧ InBlocks p.hdr.sequenceNumber.toNat p.blocks n data

/-- The numbers of a data packet do not wrap round, nor does the one after the last. -/
def NoWrap (p : Packet) : Prop :=
  ¬ p.hdr.IsControl → p.hdr.sequenceNumber.toNat + p.blocks.length < 2 ^ 64

end Packet

/-- Some packet carries the message. -/
def Carried (packets : List Packet) (n : ℕ) (data : Bytes) : Prop := ∃ p ∈ packets, p.Carries n data

/-- The packets agree on the content of each sequence number. -/
def Agree (packets : List Packet) : Prop := ∀ n a b, Carried packets n a → Carried packets n b → a = b

theorem inBlocks_bounds {seq n : ℕ} {blocks : List MessageBlockView} {data : Bytes}
    (h : InBlocks seq blocks n data) : seq ≤ n ∧ n < seq + blocks.length ∧ data.length < 2 ^ 16 := by
  induction blocks generalizing seq with
  | nil => exact h.elim
  | cons b blocks ih =>
    rw [List.length_cons]
    obtain ⟨rfl, rfl⟩ | h := h
    · exact ⟨le_rfl, by omega, b.length_lt⟩
    · obtain ⟨h₁, h₂, h₃⟩ := ih h
      exact ⟨by omega, by omega, h₃⟩

/-- A number that packets carry is not the last there is. -/
theorem carried_bounds {packets : List Packet} (hw : ∀ p ∈ packets, p.NoWrap) {n : ℕ} {data : Bytes}
    (h : Carried packets n data) : n + 1 < 2 ^ 64 ∧ data.length < 2 ^ 16 := by
  obtain ⟨p, hp, hctl, hc⟩ := h
  obtain ⟨-, h₂, h₃⟩ := inBlocks_bounds hc
  have hn := hw p hp hctl
  exact ⟨by omega, h₃⟩

/-! ### What each move keeps -/

namespace Session

variable {s : Session} {first : ℕ} {came came' : ℕ → Bytes → Prop} {done : List (ℕ × Bytes)}

/-- The session has delivered what has come, in order, and holds the rest. -/
def Keeps (s : Session) (first : ℕ) (came : ℕ → Bytes → Prop) (done : List (ℕ × Bytes)) : Prop :=
  InOrder first came s.nextExpected.toNat s.Holds done

theorem holds_iff {seq : UInt64} {data : Bytes} : s.Holds seq.toNat data ↔ s.pending.lookup seq = some data := by
  constructor
  · rintro ⟨seq', hs, hl⟩
    rwa [← UInt64.toNat_inj.mp hs]
  · exact fun h => ⟨seq, rfl, h⟩

/-- Holding a message that comes early. -/
theorem holds_emplace (seq : UInt64) (data : Bytes) (hsame : ∀ data', s.Holds seq.toNat data' → data' = data)
    (n : ℕ) (b : Bytes) :
    ({ s with pending := emplace s.pending seq data } : Session).Holds n b ↔
      s.Holds n b ∨ (n = seq.toNat ∧ b = data) := by
  constructor
  · rintro ⟨seq', rfl, hl⟩
    simp only [lookup_emplace] at hl
    split_ifs at hl with h
    · exact Or.inr ⟨congrArg UInt64.toNat h.1, (Option.some.inj hl).symm⟩
    · exact Or.inl (holds_iff.mpr hl)
  · rintro (⟨seq', rfl, hl⟩ | ⟨rfl, rfl⟩)
    · refine ⟨seq', rfl, ?_⟩
      simp only [lookup_emplace]
      rw [if_neg, hl]
      rintro ⟨rfl, hm⟩
      exact hm (AList.lookup_isSome.mp (by rw [hl]; rfl))
    · refine ⟨seq, rfl, ?_⟩
      simp only [lookup_emplace]
      split_ifs with h
      · simp
      · -- the number is taken, by the same message
        have hm : seq ∈ s.pending := by_contra fun hn => h (by simpa using hn)
        obtain ⟨data', hd⟩ := Option.isSome_iff_exists.mp (AList.lookup_isSome.mpr hm)
        rw [hd, hsame data' (holds_iff.mpr hd)]

/-- Taking the message with the expected number out. -/
theorem holds_erase (seq : UInt64) (n : ℕ) (b : Bytes) (next : UInt64) :
    ({ s with pending := s.pending.erase seq, nextExpected := next } : Session).Holds n b ↔
      s.Holds n b ∧ n ≠ seq.toNat := by
  constructor
  · rintro ⟨seq', rfl, hl⟩
    by_cases h : seq' = seq
    · subst h
      simp at hl
    · simp only [AList.lookup_erase_ne h] at hl
      exact ⟨⟨seq', rfl, hl⟩, fun he => h (UInt64.toNat_inj.mp he)⟩
  · rintro ⟨⟨seq', rfl, hl⟩, hne⟩
    refine ⟨seq', rfl, ?_⟩
    simp only [AList.lookup_erase_ne fun h : seq' = seq => hne (congrArg UInt64.toNat h)]
    exact hl

theorem hold_nextExpected (s : Session) (seq : UInt64) (blocks : List MessageBlockView) :
    (s.hold seq blocks).nextExpected = s.nextExpected := by
  induction blocks generalizing s seq with
  | nil => rfl
  | cons b blocks ih =>
    unfold hold
    split_ifs <;> rw [ih]

/-- **The blocks of a packet are taken in**, early ones held and late ones dropped. -/
theorem Keeps.hold {seq : UInt64} {blocks : List MessageBlockView} (h : s.Keeps first came done)
    (hw : seq.toNat + blocks.length < 2 ^ 64) (hagree : ∀ n a b, came' n a → came' n b → a = b)
    (hc : ∀ n b, came' n b ↔ came n b ∨ InBlocks seq.toNat blocks n b) :
    (s.hold seq blocks).Keeps first came' done := by
  induction blocks generalizing s seq came with
  | nil =>
    have hcc : came' = came := by
      funext n b
      exact propext ((hc n b).trans (or_iff_left id))
    rw [hcc]
    exact h
  | cons b blocks ih =>
    have hlen : seq.toNat + (blocks.length + 1) < 2 ^ 64 := hw
    have hseq : (seq + 1).toNat = seq.toNat + 1 := by
      rw [UInt64.toNat_add]
      exact Nat.mod_eq_of_lt (by show seq.toNat + 1 < 2 ^ 64; omega)
    -- with the first block, and then with the others
    have hrest : ∀ n c, came' n c ↔
        (came n c ∨ (n = seq.toNat ∧ c = b.data)) ∨ InBlocks (seq + 1).toNat blocks n c := by
      intro n c
      rw [hc, InBlocks, hseq, or_assoc]
    unfold Session.hold
    split_ifs with hlate
    · exact ih (h.passOver (UInt64.lt_iff_toNat_lt.mp hlate) fun _ _ => Iff.rfl) (by omega) hrest
    · refine ih (InOrder.takeIn h ?_ (fun _ _ => Iff.rfl) (holds_emplace seq b.data ?_)) (by omega) hrest
      · exact UInt64.le_iff_toNat_le.mp (UInt64.not_lt.mp hlate)
      · intro data hd
        apply hagree seq.toNat
        · exact (hc _ _).mpr (Or.inl ((h.held_iff _ _).mp hd).2)
        · exact (hc _ _).mpr (Or.inr (Or.inl ⟨rfl, rfl⟩))

theorem deliverLoop_none (fuel : ℕ) (hl : s.pending.lookup s.nextExpected = none) :
    deliverLoop (fuel + 1) s = (s, []) := by
  simp only [deliverLoop, hl]

theorem deliverLoop_some (fuel : ℕ) {data : Bytes} (hl : s.pending.lookup s.nextExpected = some data) :
    deliverLoop (fuel + 1) s = ((deliverLoop fuel s.afterDelivery).1,
      .message s.nextExpected data (UInt16.ofNat data.length) :: (deliverLoop fuel s.afterDelivery).2) := by
  simp only [deliverLoop, hl]

/-- **Delivering** hands on all that is in sequence. -/
theorem Keeps.deliverLoop {fuel : ℕ} (h : s.Keeps first came done)
    (hb : ∀ n data, came n data → n + 1 < 2 ^ 64 ∧ data.length < 2 ^ 16) (hf : s.pending.entries.length ≤ fuel) :
    (deliverLoop fuel s).1.Keeps first came
        (done ++ (delivered (deliverLoop fuel s).2).map fun m => (m.1.toNat, m.2)) ∧
      (deliverLoop fuel s).1.Waits := by
  induction fuel generalizing s done with
  | zero =>
    have he : s.pending = ∅ := AList.ext (List.length_eq_zero_iff.mp (Nat.le_zero.mp hf))
    refine ⟨by simpa [Session.deliverLoop] using h, ?_⟩
    simp [Session.deliverLoop, Waits, he]
  | succ fuel ih =>
    cases hl : s.pending.lookup s.nextExpected with
    | none =>
      rw [deliverLoop_none fuel hl]
      exact ⟨by simpa using h, hl⟩
    | some data =>
      have hheld : s.Holds s.nextExpected.toNat data := holds_iff.mpr hl
      obtain ⟨hn, hlen⟩ := hb _ _ ((h.held_iff _ _).mp hheld).2
      have hnext : (s.nextExpected + 1).toNat = s.nextExpected.toNat + 1 := by
        rw [UInt64.toNat_add]
        exact Nat.mod_eq_of_lt hn
      have hstep : s.afterDelivery.Keeps first came (done ++ [(s.nextExpected.toNat, data)]) := by
        have := InOrder.handOn h hheld fun n b => holds_erase s.nextExpected n b (s.nextExpected + 1)
        rw [← hnext] at this
        exact this
      have hsize : s.afterDelivery.pending.entries.length ≤ fuel := by
        have := length_erase (AList.lookup_isSome.mp (by rw [hl]; rfl))
        show (s.pending.erase s.nextExpected).entries.length ≤ fuel
        omega
      have hbytes : data.take (UInt16.ofNat data.length).toNat = data := by
        rw [UInt16.toNat_ofNat_of_lt' hlen, List.take_length]
      obtain ⟨h₁, h₂⟩ := ih hstep hsize
      rw [deliverLoop_some fuel hl]
      refine ⟨?_, h₂⟩
      rw [delivered_message, List.map_cons, hbytes, List.append_cons]
      exact h₁

theorem Keeps.congr {s' : Session} (h : s.Keeps first came done) (hn : s'.nextExpected = s.nextExpected)
    (hp : s'.pending = s.pending) : s'.Keeps first came done := by
  unfold Keeps Holds at *
  rw [hn, hp]
  exact h

/-- Asking for a retransmission changes nothing of this. -/
theorem maybeRequestGap_eq (s : Session) (seq : UInt64) :
    (s.maybeRequestGap seq).1.nextExpected = s.nextExpected ∧ (s.maybeRequestGap seq).1.pending = s.pending ∧
      delivered (s.maybeRequestGap seq).2 = [] := by
  unfold maybeRequestGap
  split_ifs
  · exact ⟨rfl, rfl, rfl⟩
  · exact ⟨rfl, rfl, rfl⟩

/-- **A packet**: what it carries has come too, and there is nothing more to deliver. -/
theorem Keeps.onPacket {p : Packet} (h : s.Keeps first came done) (hs : s.Waits)
    (hw : p.NoWrap) (hagree : ∀ n a b, came' n a → came' n b → a = b)
    (hb : ∀ n data, came' n data → n + 1 < 2 ^ 64 ∧ data.length < 2 ^ 16)
    (hc : ∀ n b, came' n b ↔ came n b ∨ p.Carries n b) :
    (s.onPacket p).1.Keeps first came' (done ++ (delivered (s.onPacket p).2).map fun m => (m.1.toNat, m.2)) ∧
      (s.onPacket p).1.Waits := by
  unfold Session.onPacket
  by_cases hctl : p.hdr.IsControl
  · -- a heartbeat or the end of the session carries nothing
    rw [if_pos hctl]
    have hcc : came' = came := by
      funext n b
      exact propext ((hc n b).trans (or_iff_left fun hp => hp.1 hctl))
    obtain ⟨hn, hp, hd⟩ := s.maybeRequestGap_eq p.hdr.sequenceNumber
    have hs' : (s.maybeRequestGap p.hdr.sequenceNumber).1.Waits := by
      unfold Waits at *
      rwa [hn, hp]
    simp only [hd, List.map_nil, List.append_nil, hcc]
    by_cases hend : p.hdr.messageCount = kEndOfSession
    · simp only [if_pos hend]
      exact ⟨h.congr hn hp, hs'⟩
    · simp only [if_neg hend]
      exact ⟨h.congr hn hp, hs'⟩
  · rw [if_neg hctl]
    have h₁ := h.hold (hw hctl) hagree fun n b => (hc n b).trans (or_congr_right (and_iff_right hctl))
    by_cases hem : p.blocks.isEmpty
    · simp only [if_pos hem, List.nil_append]
      exact h₁.deliverLoop hb le_rfl
    · obtain ⟨hn, hp, hd⟩ := (s.hold p.hdr.sequenceNumber p.blocks).maybeRequestGap_eq p.hdr.sequenceNumber
      simp only [if_neg hem, delivered_append, hd, List.nil_append]
      exact (h₁.congr hn hp).deliverLoop hb le_rfl

/-- **Packet after packet.** -/
theorem Keeps.onPackets {packets : List Packet} (h : s.Keeps first came done)
    (hs : s.Waits) (hw : ∀ p ∈ packets, p.NoWrap)
    (hagree : ∀ n a b, came' n a → came' n b → a = b)
    (hb : ∀ n data, came' n data → n + 1 < 2 ^ 64 ∧ data.length < 2 ^ 16)
    (hc : ∀ n b, came' n b ↔ came n b ∨ Carried packets n b) :
    (s.onPackets packets).1.Keeps first came'
        (done ++ (delivered (s.onPackets packets).2).map fun m => (m.1.toNat, m.2)) ∧
      (s.onPackets packets).1.Waits := by
  induction packets generalizing s came done with
  | nil =>
    have hcc : came' = came := by
      funext n b
      exact propext ((hc n b).trans (or_iff_left (by simp [Carried])))
    rw [hcc]
    exact ⟨by simpa [Session.onPackets] using h, hs⟩
  | cons p packets ih =>
    have hc' : ∀ n b, came' n b ↔ (came n b ∨ p.Carries n b) ∨ Carried packets n b := by
      intro n b
      rw [hc, or_assoc]
      simp [Carried]
    have hle : ∀ n b, came n b ∨ p.Carries n b → came' n b := fun n b hp => (hc' n b).mpr (Or.inl hp)
    obtain ⟨h₁, hs₁⟩ := h.onPacket hs (hw p (by simp)) (fun n a b ha hb => hagree n a b (hle n a ha) (hle n b hb))
      (fun n data hd => hb n data (hle n data hd)) fun _ _ => Iff.rfl
    obtain ⟨h₂, hs₂⟩ := ih h₁ hs₁ (fun q hq => hw q (by simp [hq])) hc'
    refine ⟨?_, hs₂⟩
    simpa [Session.onPackets, List.append_assoc] using h₂

end Session

/-! ### Whole runs -/

/-- From the start, after any packets. -/
theorem Session.keeps_start (session : SessionId) (startSeq : UInt64) {packets : List Packet}
    (hagree : Agree packets) (hw : ∀ p ∈ packets, p.NoWrap) :
    ((start session startSeq).onPackets packets).1.Keeps startSeq.toNat (Carried packets)
        ((delivered ((start session startSeq).onPackets packets).2).map fun m => (m.1.toNat, m.2)) ∧
      ∀ data, ¬ ((start session startSeq).onPackets packets).1.Holds
        ((start session startSeq).onPackets packets).1.nextExpected.toNat data := by
  have h₀ : (start session startSeq).Keeps startSeq.toNat (fun _ _ => False) [] := by
    apply InOrder.init
    · exact fun _ _ => id
    · rintro n data ⟨seq, -, hl⟩
      simp [start] at hl
  obtain ⟨h₁, h₂⟩ := h₀.onPackets rfl hw hagree
    (fun n data => carried_bounds hw) fun n b => by simp
  refine ⟨h₁, fun data hd => ?_⟩
  rw [holds_iff] at hd
  rw [Waits, hd] at h₂
  cases h₂

/-- **What a session has delivered** after any packets that agree on what they carry: the messages numbered
from the start to below the first number that no packet carries, each once, in order and with its own
bytes; any packets with the same contents, in any order and any number of times, end with the same. -/
theorem Session.delivers_in_order (session : SessionId) (startSeq : UInt64) (packets : List Packet)
    (hagree : Agree packets) (hw : ∀ p ∈ packets, p.NoWrap) :
    let r := (start session startSeq).onPackets packets
    (delivered r.2).map (fun m => m.1.toNat) =
        List.range' startSeq.toNat (r.1.nextExpected.toNat - startSeq.toNat) ∧
      (∀ m ∈ delivered r.2, Carried packets m.1.toNat m.2) ∧
      IsLeast {n | startSeq.toNat ≤ n ∧ ∀ data, ¬ Carried packets n data} r.1.nextExpected.toNat ∧
      ∀ packets' : List Packet, (∀ p, p ∈ packets' ↔ p ∈ packets) →
        delivered ((start session startSeq).onPackets packets').2 = delivered r.2 := by
  intro r
  obtain ⟨h, hn⟩ := keeps_start session startSeq hagree hw
  refine ⟨?_, ?_, h.isLeast hn, ?_⟩
  · have := h.numbers
    rwa [List.map_map] at this
  · intro m hm
    exact h.own (m.1.toNat, m.2) (List.mem_map.mpr ⟨m, hm, rfl⟩)
  · intro packets' hsame
    have hcar : ∀ n data, Carried packets' n data ↔ Carried packets n data := by
      intro n data
      unfold Carried
      simp only [hsame]
    have hagree' : Agree packets' := fun n a b ha hb => hagree n a b ((hcar n a).mp ha) ((hcar n b).mp hb)
    obtain ⟨h', hn'⟩ := keeps_start session startSeq hagree' fun p hp => hw p ((hsame p).mp hp)
    obtain ⟨-, heq⟩ := h.unique h' hn hn' hagree hcar
    refine List.map_injective_iff.mpr ?_ heq
    rintro ⟨a, x⟩ ⟨b, y⟩ hab
    simp only [Prod.mk.injEq, UInt64.toNat_inj] at hab
    exact Prod.ext hab.1 hab.2

/-- The third of three messages comes first, then the first, then the last two, and a heartbeat. -/
def outOfOrder : List Packet :=
  let packet (seq : UInt64) (count : UInt16) (blocks : List MessageBlockView) : Packet :=
    ⟨⟨Vector.replicate kSessionLen 0, seq, count⟩, blocks⟩
  [packet 3 1 [⟨[67], by decide⟩], packet 1 1 [⟨[65], by decide⟩],
    packet 2 2 [⟨[66], by decide⟩, ⟨[67], by decide⟩], packet 4 0 []]

/-- The session puts them in order, and would have delivered the same had they come the other way round. -/
theorem Session.delivers_outOfOrder :
    let run (packets : List Packet) := (start (Vector.replicate kSessionLen 0) 1).onPackets packets
    (run outOfOrder).1.nextExpected = 4 ∧
      delivered (run outOfOrder).2 = [(1, [65]), (2, [66]), (3, [67])] ∧
      delivered (run outOfOrder.reverse).2 = delivered (run outOfOrder).2 := by
  have hcar : ∀ n data, Carried outOfOrder n data →
      (n = 1 ∧ data = [65]) ∨ (n = 2 ∧ data = [66]) ∨ (n = 3 ∧ data = [67]) := by
    rintro n data ⟨p, hp, -, hc⟩
    simp only [outOfOrder, List.mem_cons, List.not_mem_nil, or_false] at hp
    obtain rfl | rfl | rfl | rfl := hp <;> simp [InBlocks] at hc <;> tauto
  have hagree : Agree outOfOrder := by
    intro n a b ha hb
    obtain ⟨rfl, rfl⟩ | ⟨rfl, rfl⟩ | ⟨rfl, rfl⟩ := hcar n a ha <;> simpa [eq_comm] using hcar _ b hb
  have hw : ∀ p ∈ outOfOrder, p.NoWrap := by
    unfold Packet.NoWrap
    decide +kernel
  obtain ⟨-, -, -, hsame⟩ := delivers_in_order (Vector.replicate kSessionLen 0) 1 outOfOrder hagree hw
  exact ⟨by decide +kernel, by decide +kernel, hsame _ fun p => List.mem_reverse⟩

end MatchingEngine.Moldudp64
