import MatchingEngine.Feed.Retransmission

/-!
# Everything is delivered in the end

The retransmission exchange when the network is fair. A session asks only when a packet comes
that is ahead, and the server replies to a request with one packet, whatever the count in it.
That is enough: as long as the sender goes on announcing where the publication ends, each
heartbeat that comes asks for the first packet that is missing (`Run.delivers_all`).
-/

namespace MatchingEngine.Moldudp64

open Foundation

variable {P : Publication} {net : Net}

/-! ### What a move does -/

namespace Net

/-- What has been delivered stays delivered. -/
theorem delivered_move (net : Net) (m : Move) : delivered net.heard <+: delivered (net.move P m).heard := by
  cases m with
  | publish d => exact List.prefix_rfl
  | serve d => exact List.prefix_rfl
  | arrive d =>
    rw [move, arrive]
    cases Snapshot.received d with
    | none => exact List.prefix_rfl
    | some p => exact delivered_append _ _ ▸ List.prefix_append _ _

/-- **The packet that is waited for** ends the waiting. -/
theorem Ok.arrive_expected (h : net.Ok P) {i : ℕ} (hi : i * P.perPacket < P.messages.length) :
    (net.arrive (P.packet i)).session.nextExpected ≠ P.start i := by
  obtain ⟨p, hreceived, hbatch⟩ := received_packet hi
  obtain ⟨packets, hpub, hrun⟩ := h.history
  have hpub' : ∀ q ∈ packets ++ [p], IsPublished P q := by
    intro q hq
    rcases List.mem_append.mp hq with hq | hq
    · exact hpub q hq
    · rw [List.mem_singleton.mp hq]
      exact .inr ⟨i, hbatch⟩
  obtain ⟨hkeeps, hwaits⟩ := Session.keeps_start P.session P.first (agree_of_published hpub') fun q hq => (hpub' q hq).noWrap
  have hleast := hkeeps.isLeast hwaits
  rw [Session.onPackets_concat, hrun] at hleast
  rw [Net.arrive, hreceived]
  intro hsame
  dsimp only at hsame hleast
  rw [hsame, P.toNat_start hi.le] at hleast
  refine hleast.1.2 P.messages[i * P.perPacket] ⟨p, by simp, hbatch.carries_iff.mpr ?_⟩
  have hpos := P.perPacket_pos
  rw [Nat.succ_mul, Nat.add_sub_cancel_left]
  exact ⟨le_rfl, by omega, List.getElem?_eq_getElem hi⟩

end Net

/-! ### Runs -/

/-- An infinite run of the exchange. -/
structure Run (P : Publication) where
  /-- The state at each moment. -/
  net : ℕ → Net
  /-- What happens at each moment. -/
  happens : ℕ → Move
  /-- Nothing has been sent. -/
  start : net 0 = .new P
  /-- It can happen. -/
  possible : ∀ t, (happens t).Possible P (net t)
  /-- It happens. -/
  step : ∀ t, net (t + 1) = (net t).move P (happens t)

namespace Run

open Filter

/-- **A fair run**: the sender announces the end of what it has published again and again, and the network loses
neither way a datagram that is sent again and again. -/
structure Fair (r : Run P) : Prop where
  /-- Heartbeats, while the feed is idle. -/
  announced : ∃ᶠ t in atTop, r.happens t = .publish (encodeHeartbeat P.session P.last)
  /-- To the subscriber. -/
  down : FairLossy (fun t d => d ∈ Net.toSubscriber P (r.happens t)) fun t d => r.happens t = .arrive d
  /-- To the server. -/
  up : FairLossy (fun t d => d ∈ (r.net t).toServer (r.happens t)) fun t d => r.happens t = .serve d

variable (r : Run P)

theorem reachable (t : ℕ) : Reachable P (r.net t) := by
  induction t with
  | zero =>
    rw [r.start]
    exact .new
  | succ t ih =>
    rw [r.step]
    exact ih.move (r.possible t)

/-- How many messages have been delivered. -/
def count (t : ℕ) : ℕ := (delivered (r.net t).heard).length

theorem delivered_count (t : ℕ) : (r.net t).Delivered P (r.count t) := by
  obtain ⟨k, hk⟩ := (r.reachable t).ok.delivered
  have hcount : r.count t = k := by simpa [count] using congrArg List.length hk.numbers
  rwa [hcount]

theorem count_le (t : ℕ) : r.count t ≤ P.messages.length := by
  obtain ⟨i, hi⟩ := (r.delivered_count t).whole
  omega

theorem monotone_count : Monotone r.count := by
  refine monotone_nat_of_le_succ fun t => ?_
  rw [count, count, r.step]
  exact ((r.net t).delivered_move (r.happens t)).length_le

variable {r}

/-- **A fair run does not wait forever** for a message. -/
theorem Fair.moves_on (h : r.Fair) {n since : ℕ} (hn : n < P.messages.length) : ¬ ∀ t, since ≤ t → r.count t = n := by
  intro hstays
  have hat : ∀ t, since ≤ t → (r.net t).Delivered P n := fun t ht => hstays t ht ▸ r.delivered_count t
  obtain ⟨i, hi, hfirst⟩ := (hat since le_rfl).expects hn
  have hnext : ∀ t, since ≤ t → (r.net t).session.nextExpected = P.start i := by
    intro t ht
    rw [← hfirst, ← UInt64.toNat_inj, (hat t ht).next, (hat since le_rfl).next]
  -- every heartbeat that comes is answered with the same request
  let request := encodeRequest ⟨P.session, P.start i, (min (P.last - P.start i) 0xFFFF).toUInt16⟩
  have hheartbeat : ∃ᶠ t in atTop, encodeHeartbeat P.session P.last ∈ Net.toSubscriber P (r.happens t) :=
    h.announced.mono fun t ht => by
      rw [ht]
      exact List.mem_singleton.mpr rfl
  have hrequest : ∃ᶠ t in atTop, request ∈ (r.net t).toServer (r.happens t) := by
    refine h.down.answered hheartbeat fun t (ht : since ≤ t) harrives => ?_
    have hahead : P.start i < P.last := by
      rw [UInt64.lt_iff_toNat_lt, P.toNat_start hi.le, P.toNat_last]
      omega
    obtain ⟨-, hasks⟩ := Session.onPacket_control (s := (r.net t).session)
      (p := ⟨⟨P.session, P.last, kHeartbeat⟩, []⟩) (.inl rfl) (by rw [hnext t ht]; exact hahead)
    rw [harrives, Net.toServer, encodeHeartbeat, received_control _ _ (.inl rfl)]
    dsimp only
    rw [hasks, hnext t ht, (r.reachable t).ok.session]
    exact List.mem_singleton.mpr rfl
  -- every such request that comes is answered with the packet that is waited for
  have hreply : ∃ᶠ t in atTop, P.packet i ∈ Net.toSubscriber P (r.happens t) := by
    refine h.up.answered hrequest fun t (_ : 0 ≤ t) harrives => ?_
    rw [harrives, Net.toSubscriber, reply_start hi]
    exact List.mem_singleton.mpr rfl
  obtain ⟨t, ht, harrives⟩ := frequently_atTop.mp (h.down _ hreply) since
  refine (r.reachable t).ok.arrive_expected hi ?_
  have hafter := hnext (t + 1) (by omega)
  rwa [r.step, harrives] at hafter

/-- From some moment on all messages have been delivered. -/
theorem Fair.completes (h : r.Fair) : ∃ t, ∀ u, t ≤ u → (r.net u).Delivered P P.messages.length := by
  obtain ⟨t, ht⟩ := exists_le_of_never_stays r.monotone_count fun n since hn => h.moves_on hn
  refine ⟨t, fun u htu => ?_⟩
  have hall : r.count u = P.messages.length := le_antisymm (r.count_le u) (ht.trans (r.monotone_count htu))
  exact hall ▸ r.delivered_count u

/-- **Everything is delivered in the end**, in every fair run, though each packet may be lost any number of times:
from some moment on all messages have been delivered, in order, and no more requests are made. -/
theorem delivers_all (h : r.Fair) :
    ∃ t, ∀ u, t ≤ u → (delivered (r.net u).heard).map Prod.snd = P.messages ∧
      (r.net u).session.nextExpected = P.last ∧ (r.net u).toServer (r.happens u) = [] := by
  obtain ⟨t, ht⟩ := h.completes
  refine ⟨t, fun u htu => ?_⟩
  have hdone := ht u htu
  have hnext : (r.net u).session.nextExpected = P.last := by
    rw [← UInt64.toNat_inj, hdone.next, P.toNat_last]
  refine ⟨by rw [hdone.messages, List.take_length], hnext, ?_⟩
  have hpossible := r.possible u
  cases hm : r.happens u with
  | publish d => rfl
  | serve d => rfl
  | arrive d =>
    rw [hm] at hpossible
    obtain ⟨p, hreceived, hp⟩ := received_of_sends ((r.reachable u).ok.downstream d hpossible)
    rw [Net.toServer, hreceived]
    refine List.map_eq_nil_iff.mpr (List.eq_nil_iff_forall_not_mem.mpr fun q hq => ?_)
    obtain ⟨-, -, hahead⟩ := Session.requests_onPacket hq
    rw [hnext] at hahead
    exact absurd hp.le_last (UInt64.not_le.mpr hahead)

end Run

/-- The run in which one packet is lost. -/
def lossyRun : Run onePacket where
  net := afterLoss
  happens := lostOnce
  start := rfl
  possible := lostOnce_possible
  step _ := rfl

/-- It is fair. -/
theorem fair_lossyRun : lossyRun.Fair := by
  have hsends : ∃ᶠ t in Filter.atTop, lostOnce t = .publish (encodeHeartbeat onePacket.session onePacket.last) :=
    Filter.frequently_atTop.mpr fun t => ⟨2 * t + 5, by omega, if_pos (Nat.mul_mod_right 2 t)⟩
  have hcomes : ∃ᶠ t in Filter.atTop, lostOnce t = .arrive (encodeHeartbeat onePacket.session onePacket.last) :=
    Filter.frequently_atTop.mpr fun t => ⟨(2 * t + 1) + 5, by omega, if_neg (by omega)⟩
  refine ⟨hsends, fun d hd => ?_, fun d hd => ?_⟩
  · -- in the long run only the heartbeat is sent
    obtain ⟨t, ht, hmem⟩ := Filter.frequently_atTop.mp hd 5
    obtain ⟨t, rfl⟩ := Nat.exists_eq_add_of_le' ht
    have hrule : lossyRun.happens (t + 5) = if t % 2 = 0
        then .publish (encodeHeartbeat onePacket.session onePacket.last)
        else .arrive (encodeHeartbeat onePacket.session onePacket.last) := rfl
    rw [hrule] at hmem
    split_ifs at hmem
    · rwa [List.mem_singleton.mp hmem]
    · cases hmem
  · -- in the long run nothing is asked for
    obtain ⟨t, ht, hmem⟩ := Filter.frequently_atTop.mp hd 5
    have hcount : lossyRun.count 5 = 1 := by decide +kernel
    have hdone := lossyRun.delivered_count t
    have hlast : (lossyRun.net t).session.nextExpected = onePacket.last := by
      have hge := lossyRun.monotone_count ht
      have hle := lossyRun.count_le t
      have hlength : onePacket.messages.length = 1 := rfl
      rw [← UInt64.toNat_inj, hdone.next, onePacket.toNat_last]
      omega
    obtain ⟨t, rfl⟩ := Nat.exists_eq_add_of_le' ht
    have hrule : lossyRun.happens (t + 5) = if t % 2 = 0
        then .publish (encodeHeartbeat onePacket.session onePacket.last)
        else .arrive (encodeHeartbeat onePacket.session onePacket.last) := rfl
    rw [hrule] at hmem
    split_ifs at hmem
    · cases hmem
    · rw [Net.toServer, encodeHeartbeat, received_control _ _ (.inl rfl)] at hmem
      obtain ⟨q, hq, -⟩ := List.mem_map.mp hmem
      obtain ⟨-, -, hahead⟩ := Session.requests_onPacket hq
      rw [hlast] at hahead
      exact absurd hahead (UInt64.lt_irrefl _)

/-- Its message is delivered in the end. -/
theorem Run.delivers_all_lossyRun :
    ∃ t, ∀ u, t ≤ u → (delivered (lossyRun.net u).heard).map Prod.snd = onePacket.messages ∧
      (lossyRun.net u).session.nextExpected = onePacket.last ∧ (lossyRun.net u).toServer (lossyRun.happens u) = [] :=
  Run.delivers_all fair_lossyRun

end MatchingEngine.Moldudp64
