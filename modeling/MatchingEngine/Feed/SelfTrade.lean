import MatchingEngine.Feed.Independence
import MatchingEngine.Foundation.Tally

/-!
# No participant trades with itself

The risk engine declines an order if its participant has a resting order on the other side,
and it knows that from a counter only. Between two messages each counter is the number of
entries of the routing table that it stands for (`Tallied`). Fills, partial cancels and
executions remove orders without lowering a counter, but leave the entry in the table as well.

The trades of a message are those that `add` leaves in the buffer, also when it throws (`Apart`);
fills and Trade events are of them (`Handles.tells`). The MPID of an order is the one that the
messages record (`mpids`). An exception that leaves a message leaves an entry behind that is not
counted. That takes a window which no vector can have, and no order rests for its symbol: it does
no harm unless a symbol with orders shares a counter with it (`Unmixed`).
-/

namespace MatchingEngine

open Foundation Itch Mdfeed Function OrderBookV2

/-! ### Recorded MPIDs -/

/-- What a message records. -/
def recordMpid (mpids : OrderId → Bytes) : Message → OrderId → Bytes
  | .addOrderNoMPID m => update mpids m.orderRefNumber []
  | .addOrderMPID m => update mpids m.orderRefNumber m.attribution.str
  | .orderReplace m => update mpids m.newOrderRefNumber (mpids m.originalOrderRefNumber)
  | _ => mpids

/-- **The MPID of each order**, from its Add Order on and through every Order Replace; empty if it
has none. -/
def mpids (ms : List Message) : OrderId → Bytes := ms.foldl recordMpid fun _ => []

theorem mpids_snoc (past : List Message) (m : Message) : mpids (past ++ [m]) = recordMpid (mpids past) m := by
  rw [mpids, List.foldl_append]
  rfl

/-- A message leaves alone what is recorded of other orders. -/
theorem recordMpid_of_ne (old : OrderId → Bytes) {m : Message} {ref : OrderId} (h : ∀ new ∈ m.newRef, ref ≠ new) :
    recordMpid old m ref = old ref := by
  cases m with
  | addOrderNoMPID m => exact update_of_ne (h _ rfl) ..
  | addOrderMPID m => exact update_of_ne (h _ rfl) ..
  | orderReplace m => exact update_of_ne (h _ rfl) ..
  | _ => rfl

/-! ### What is told of trades -/

namespace Shard

variable {σ : Shard} {past : List Message} {ref : OrderId} {info : OrderInfo} {req : OrderRequest} {m : Message}
  {r : Handled}

/-- The counter that an order of a participant is counted in. -/
def counterOf (info : OrderInfo) : Option Bytes :=
  if info.mpid = [] then none else some (RiskEngine.key info.symbol info.mpid info.side)

theorem of_counterOf {k : Bytes} (h : counterOf info = some k) :
    info.mpid ≠ [] ∧ RiskEngine.key info.symbol info.mpid info.side = k := by
  rw [counterOf] at h
  split_ifs at h with hne
  exact ⟨hne, Option.some.inj h⟩

/-- **The counters and the table**, after the messages `past`. Some counters are `kept` right. -/
structure Tallied (kept : Bytes → Prop) (σ : Shard) (past : List Message) : Prop where
  /-- The table has the recorded MPIDs. -/
  recorded : ∀ ref info, σ.orderSymbol ref = some info → info.mpid = mpids past ref
  /-- Each of them is the number of table entries that are counted in it. -/
  counted : ∃ risk, σ.risk = some risk ∧
    ∀ k, kept k → risk.restingCount k = tally counterOf σ.orderSymbol (newRefs past) k

variable {kept : Bytes → Prop}

theorem Tallied.new (kept : Bytes → Prop) (config : Bytes → BookConfig) (cfg : RiskEngine.Config) :
    (new config (some cfg)).Tallied kept [] where
  recorded ref info h := by cases h
  counted := ⟨_, rfl, fun k _ => rfl⟩

/-- Fewer counters are kept right. -/
theorem Tallied.mono {kept' : Bytes → Prop} (h : σ.Tallied kept past) (hsub : ∀ k, kept' k → kept k) :
    σ.Tallied kept' past where
  recorded := h.recorded
  counted := by
    obtain ⟨risk, hrisk, heq⟩ := h.counted
    exact ⟨risk, hrisk, fun k hk => heq k (hsub k hk)⟩

/-- Books, statistics and reference prices do not matter. -/
theorem Tallied.congr {σ' : Shard} (h : σ.Tallied kept past) (ht : σ'.orderSymbol = σ.orderSymbol)
    {f : RiskEngine → RiskEngine} (hr : σ'.risk = σ.risk.map f) (hf : ∀ risk, (f risk).restingCount = risk.restingCount) : σ'.Tallied kept past where
  recorded ref info hi := h.recorded ref info (ht ▸ hi)
  counted := by
    obtain ⟨risk, hrisk, heq⟩ := h.counted
    refine ⟨f risk, by rw [hr, hrisk]; rfl, fun k hk => ?_⟩
    rw [ht, hf]
    exact heq k hk

theorem Tallied.same {σ' : Shard} (h : σ.Tallied kept past) (ht : σ'.orderSymbol = σ.orderSymbol)
    (hr : σ'.risk = σ.risk) : σ'.Tallied kept past := by
  refine h.congr (f := id) ht ?_ fun _ => rfl
  rw [hr, Option.map_id]
  rfl

theorem restingCount_noteResting (risk : RiskEngine) (info : OrderInfo) (k : Bytes) :
    (risk.noteResting info.symbol info.mpid info.side).restingCount k =
      risk.restingCount k + if counterOf info = some k then 1 else 0 := by
  rw [RiskEngine.noteResting, counterOf]
  by_cases hm : info.mpid = []
  · simp [hm]
  · rw [if_neg hm, if_neg hm]
    by_cases hk : k = RiskEngine.key info.symbol info.mpid info.side
    · subst hk
      simp
    · simp [update_of_ne hk, Ne.symm hk]

theorem restingCount_noteRemoved (risk : RiskEngine) (info : OrderInfo) (k : Bytes) :
    (risk.noteRemoved info.symbol info.mpid info.side).restingCount k =
      risk.restingCount k - if counterOf info = some k then 1 else 0 := by
  rw [RiskEngine.noteRemoved, counterOf]
  by_cases hm : info.mpid = []
  · simp [hm]
  · rw [if_neg hm, if_neg hm]
    by_cases hk : k = RiskEngine.key info.symbol info.mpid info.side
    · subst hk
      simp
    · simp [update_of_ne hk, Ne.symm hk]

theorem restingCount_noteTrades (symbol : Bytes) (trades : List Trade) (risk : RiskEngine) :
    (noteTrades symbol trades risk).restingCount = risk.restingCount := by
  induction trades generalizing risk with
  | nil => rfl
  | cons t trades ih => exact ih _

/-- **An order is withdrawn**: its entry goes, and its counter is lowered. -/
theorem Tallied.withdrawn (h : σ.Tallied kept past) (hok : σ.Ok (newRefs past)) (hnd : (newRefs past).Nodup)
    {s : OrderBookV2} (hw : Withdraws σ ref info s) : (σ.withdrawn ref info s).Tallied kept past where
  recorded ref' info' hi := by
    have hi' : update σ.orderSymbol ref none ref' = some info' := hi
    by_cases he : ref' = ref
    · subst he
      rw [update_self] at hi'
      cases hi'
    · rw [update_of_ne he] at hi'
      exact h.recorded ref' info' hi'
  counted := by
    obtain ⟨risk, hrisk, heq⟩ := h.counted
    refine ⟨risk.noteRemoved info.symbol info.mpid info.side, ?_, fun k hk => ?_⟩
    · show σ.risk.map _ = _
      rw [hrisk]
      rfl
    · have herase : tally counterOf (update σ.orderSymbol ref none) (newRefs past) k +
          (if counterOf info = some k then 1 else 0) = tally counterOf σ.orderSymbol (newRefs past) k :=
        tally_erase hnd (hok.used _ _ hw.known) hw.known
      have := heq k hk
      rw [restingCount_noteRemoved]
      show _ = tally counterOf (update σ.orderSymbol ref none) (newRefs past) k
      omega

/-- An entry is written, with the MPID that the message records. -/
theorem Tallied.recorded_setOrder {m : Message} (h : σ.Tallied kept past) (hnew : m.newRef = some req.id)
    (hmpid : mpids (past ++ [m]) req.id = info.mpid) :
    ∀ ref' info', (σ.setOrder req.id info).orderSymbol ref' = some info' → info'.mpid = mpids (past ++ [m]) ref' := by
  intro ref' info' hi
  have hi' : update σ.orderSymbol req.id (some info) ref' = some info' := hi
  by_cases he : ref' = req.id
  · subst he
    rw [update_self] at hi'
    rw [hmpid, ← Option.some.inj hi']
  · rw [update_of_ne he] at hi'
    rw [h.recorded ref' info' hi', mpids_snoc, recordMpid_of_ne]
    intro new hn
    rw [hnew] at hn
    rwa [← Option.mem_some_iff.mp hn]

/-- **An order is submitted**: it gets an entry, and its counter is raised. -/
theorem Tallied.submitted {m : Message} (h : σ.Tallied kept past) (hnew : m.newRef = some req.id)
    (hfresh : req.id ∉ newRefs past) (hmpid : mpids (past ++ [m]) req.id = info.mpid) (a : AddResult)
    (counted : Stats → Stats) : (σ.submitted req info a counted).Tallied kept (past ++ [m]) where
  recorded := h.recorded_setOrder hnew hmpid
  counted := by
    obtain ⟨risk, hrisk, heq⟩ := h.counted
    refine ⟨noteTrades info.symbol a.trades (risk.noteResting info.symbol info.mpid info.side), ?_, fun k hk => ?_⟩
    · show (σ.risk.map _).map _ = _
      rw [hrisk]
      rfl
    · have hrefs : newRefs (past ++ [m]) = newRefs past ++ [req.id] := by
        rw [newRefs_append]
        simp [newRefs, hnew]
      have := heq k hk
      rw [restingCount_noteTrades, restingCount_noteResting, hrefs]
      show _ = tally counterOf (update σ.orderSymbol req.id (some info)) _ k
      rw [tally_insert hfresh]
      omega

/-- A message adds nothing to the table. -/
theorem Tallied.unsubmitted (h : σ.Tallied kept past) (hok : σ.Ok (newRefs past))
    (hfresh : ∀ ref ∈ m.newRef, ref ∉ newRefs past) : σ.Tallied kept (past ++ [m]) where
  recorded ref info hi := by
    rw [h.recorded ref info hi, mpids_snoc, recordMpid_of_ne]
    rintro new hn rfl
    exact hfresh _ hn (hok.used _ _ hi)
  counted := by
    obtain ⟨risk, hrisk, heq⟩ := h.counted
    refine ⟨risk, hrisk, fun k hk => (heq k hk).trans (Eq.symm ?_)⟩
    cases hm : m.newRef with
    | none => simp [newRefs, hm]
    | some new =>
      have hnone : σ.orderSymbol new = none := by
        by_contra hne
        obtain ⟨info, hi⟩ := Option.ne_none_iff_exists'.mp hne
        exact hfresh new hm (hok.used _ _ hi)
      have hrefs : newRefs (past ++ [m]) = newRefs past ++ [new] := by
        rw [newRefs_append]
        simp [newRefs, hm]
      rw [hrefs, tally_snoc_none hnone]

/-- **An exception leaves a message**: there is an entry that is not counted, in a counter that is not kept right. -/
theorem Tallied.escaped (h : σ.Tallied kept past) (hnew : m.newRef = some req.id) (hfresh : req.id ∉ newRefs past)
    (hmpid : mpids (past ++ [m]) req.id = info.mpid) (hnot : ∀ k, counterOf info = some k → ¬ kept k) (a : AddResult) :
    ((σ.setOrder req.id info).afterAdd info.symbol a).Tallied kept (past ++ [m]) where
  recorded := h.recorded_setOrder hnew hmpid
  counted := by
    obtain ⟨risk, hrisk, heq⟩ := h.counted
    refine ⟨risk, hrisk, fun k hk => ?_⟩
    have hrefs : newRefs (past ++ [m]) = newRefs past ++ [req.id] := by
      rw [newRefs_append]
      simp [newRefs, hnew]
    show _ = tally counterOf (update σ.orderSymbol req.id (some info)) _ k
    rw [heq k hk, hrefs, tally_insert hfresh, if_neg fun hc => hnot k hc hk, Nat.add_zero]

/-- An Add Order message. If no book of its symbol can have a price axis, its counter need not be kept right. -/
theorem Tallied.adds (h : σ.Tallied kept past) (hok : σ.Ok (newRefs past)) (hnew : m.newRef = some req.id)
    (hfresh : req.id ∉ newRefs past) (hmpid : mpids (past ++ [m]) req.id = info.mpid)
    (hkept : ∀ mpid side, kept (RiskEngine.key info.symbol mpid side) → WindowFits (σ.books info.symbol).initialWindow)
    {timestampNs : UInt64} (hr : Adds σ info req timestampNs r) : r.shard.Tallied kept (past ++ [m]) := by
  have hsame : σ.Tallied kept (past ++ [m]) := by
    refine h.unsubmitted hok fun ref hm => ?_
    rw [hnew] at hm
    rwa [← Option.mem_some_iff.mp hm]
  cases hr with
  | declined v => exact hsame.same rfl rfl
  | returned v a add => exact h.submitted hnew hfresh hmpid a _
  | threw v a what =>
    refine hsame.same ?_ rfl
    -- the entry has been erased again
    have hnone : σ.orderSymbol req.id = none := by
      by_contra hne
      obtain ⟨info, hi⟩ := Option.ne_none_iff_exists'.mp hne
      exact hfresh (hok.used _ _ hi)
    show update (update σ.orderSymbol req.id (some info)) req.id none = σ.orderSymbol
    rw [update_idem, update_eq_self_iff]
    exact hnone.symm
  | escaped v a _ _ _ ha hthrown =>
    refine h.escaped hnew hfresh hmpid (fun k hc hk => ?_) a
    rw [← (of_counterOf hc).2] at hk
    exact ha.not_windowFits hthrown (hkept _ _ hk)

theorem Tallied.takesShares (h : σ.Tallied kept past) (hok : σ.Ok (newRefs past)) (hnew : m.newRef = none)
    {shares : UInt32} {counted : Stats → Stats} {onRisk : OrderInfo → RiskEngine → RiskEngine} {event : OrderInfo → MDEvent}
    (hrisk : ∀ info risk, (onRisk info risk).restingCount = risk.restingCount)
    (hr : TakesShares σ ref shares counted onRisk event r) : r.shard.Tallied kept (past ++ [m]) := by
  have hsame : σ.Tallied kept (past ++ [m]) := h.unsubmitted hok (by simp [hnew])
  cases hr with
  | unknown => exact hsame.same rfl rfl
  | known info s => exact hsame.congr rfl rfl (hrisk info)

theorem Tallied.replaces {m : OrderReplace} (h : σ.Tallied kept past) (hok : σ.Ok (newRefs past))
    (hnd : (newRefs past).Nodup) (hfresh : m.newOrderRefNumber ∉ newRefs past) (hr : Replaces σ m r) :
    r.shard.Tallied kept (past ++ [.orderReplace m]) := by
  have hsame : ∀ {σ' : Shard}, σ'.Tallied kept past → σ'.Ok (newRefs past) →
      σ'.Tallied kept (past ++ [.orderReplace m]) := by
    intro σ' h' hok'
    refine h'.unsubmitted hok' fun ref hm => ?_
    rwa [← Option.mem_some_iff.mp hm]
  cases hr with
  | unknown => exact (hsame h hok).same rfl rfl
  | declined info s v hw =>
    exact (hsame (h.withdrawn hok hnd hw) (hok.withdrawn hw)).same rfl rfl
  | returned info s v a hw =>
    refine (h.withdrawn hok hnd hw).submitted rfl hfresh ?_ a _
    rw [mpids_snoc, h.recorded _ _ hw.known]
    exact update_self ..
  | threw info s v a what hw =>
    exact (hsame (h.withdrawn hok hnd hw) (hok.withdrawn hw)).same rfl rfl
  | escaped info s v a hw =>
    -- the new order has no entry yet
    exact (hsame (h.withdrawn hok hnd hw) (hok.withdrawn hw)).same rfl rfl

/-- **Every message keeps the counters and the table together**, if no counter of a symbol that it adds is kept right
where no book can have a price axis. -/
theorem Handles.tallied (hr : Handles σ m r) (h : σ.Tallied kept past) (hok : σ.Ok (newRefs past))
    (hnd : (newRefs (past ++ [m])).Nodup) (hkept : ∀ symbol ∈ m.addedSymbol, ∀ mpid side,
      kept (RiskEngine.key symbol mpid side) → WindowFits (σ.books symbol).initialWindow) :
    r.shard.Tallied kept (past ++ [m]) := by
  have hfresh := fresh_of_nodup hnd
  cases hr with
  | addOrderNoMPID hr =>
    refine h.adds hok rfl (hfresh _ rfl) ?_ (hkept _ rfl) hr
    rw [mpids_snoc]
    exact update_self ..
  | addOrderMPID hr =>
    refine h.adds hok rfl (hfresh _ rfl) ?_ (hkept _ rfl) hr
    rw [mpids_snoc]
    exact update_self ..
  | orderCancel hr =>
    refine h.takesShares hok rfl ?_ hr
    exact fun _ _ => rfl
  | orderExecuted hr =>
    refine h.takesShares hok rfl ?_ hr
    exact fun _ _ => rfl
  | nonPrintable => exact (h.unsubmitted hok hfresh).same rfl rfl
  | orderExecutedWithPrice _ hr =>
    refine h.takesShares hok rfl ?_ hr
    exact fun _ _ => rfl
  | orderDelete hr =>
    cases hr with
    | unknown => exact (h.unsubmitted hok hfresh).same rfl rfl
    | known info s hw =>
      have hg := (h.withdrawn hok (nodup_of_snoc hnd) hw).unsubmitted (hok.withdrawn hw) hfresh
      exact hg.same rfl rfl
  | orderReplace hr => exact h.replaces hok (nodup_of_snoc hnd) (hfresh _ rfl) hr
  | other => exact (h.unsubmitted hok hfresh).same rfl rfl

end Shard

/-! ### What an accepted order finds in its book -/

namespace RiskEngine

variable {risk : RiskEngine} {req : OrderRequest} {symbol mpid : Bytes} {book : OrderBookV2} {v : Verdict}

/-! The verdicts of the checks. -/

theorem of_tooLarge (h : risk.tooLarge req = some v) : v.accepted = false ∧ v.reason = .orderTooLarge := by
  rw [tooLarge] at h
  split_ifs at h
  rw [← Option.some.inj h]
  exact ⟨rfl, rfl⟩

theorem of_outOfBounds (h : risk.outOfBounds req = some v) : v.accepted = false ∧ v.reason = .priceOutOfBounds := by
  rw [outOfBounds] at h
  split_ifs at h
  rw [← Option.some.inj h]
  exact ⟨rfl, rfl⟩

theorem of_outOfBand {p : Option ℤ} (h : risk.outOfBand req p = some v) :
    v.accepted = false ∧ v.reason = .priceBandViolation := by
  unfold outOfBand at h
  cases p with
  | none => cases h
  | some p =>
    dsimp only at h
    split_ifs at h
    obtain ⟨detail, -, rfl⟩ := Option.map_eq_some_iff.mp h
    exact ⟨rfl, rfl⟩

theorem of_selfTrade (h : risk.selfTrade req symbol mpid = some v) :
    v.accepted = false ∧ mpid ≠ [] ∧ 0 < risk.restingCount (key symbol mpid req.side.opposite) := by
  rw [selfTrade] at h
  split_ifs at h with hc
  rw [← Option.some.inj h]
  exact ⟨rfl, hc⟩

/-- **Where a verdict comes from**: one of the first three checks, or the last one after they have passed. -/
theorem check_cases (h : risk.check req symbol mpid book = .ok v) :
    (risk.tooLarge req = some v ∨ risk.outOfBounds req = some v ∨ ∃ p, risk.outOfBand req p = some v) ∨
      risk.tooLarge req = none ∧ risk.outOfBounds req = none ∧
        (∃ p, risk.reference symbol book = .ok p ∧ risk.outOfBand req p = none) ∧
        (risk.selfTrade req symbol mpid).getD .pass = v := by
  rw [check] at h
  cases h₁ : risk.tooLarge req with
  | some v₁ =>
    rw [h₁] at h
    exact Or.inl (Or.inl (congrArg some (Except.ok.inj h)))
  | none =>
    simp only [h₁] at h
    cases h₂ : risk.outOfBounds req with
    | some v₂ =>
      rw [h₂] at h
      exact Or.inl (Or.inr (Or.inl (congrArg some (Except.ok.inj h))))
    | none =>
      simp only [h₂] at h
      obtain ⟨p, hp, h⟩ := bind_eq_ok.mp h
      cases h₃ : risk.outOfBand req p with
      | some v₃ =>
        rw [h₃] at h
        exact Or.inl (Or.inr (Or.inr ⟨p, h₃.trans (congrArg some (Except.ok.inj h))⟩))
      | none =>
        simp only [h₃] at h
        exact Or.inr ⟨rfl, rfl, ⟨p, hp, h₃⟩, Except.ok.inj h⟩

/-- **An order that is accepted** has passed all four checks. -/
theorem passed_of_accepted (h : risk.check req symbol mpid book = .ok v) (ha : v.accepted = true) :
    risk.tooLarge req = none ∧ risk.outOfBounds req = none ∧
      (∃ p, risk.reference symbol book = .ok p ∧ risk.outOfBand req p = none) ∧
      risk.selfTrade req symbol mpid = none := by
  have hfalse : v.accepted ≠ false := by
    rw [ha]
    exact Bool.noConfusion
  obtain (hv | hv | ⟨p, hv⟩) | ⟨h₁, h₂, h₃, hv⟩ := check_cases h
  · exact absurd (of_tooLarge hv).1 hfalse
  · exact absurd (of_outOfBounds hv).1 hfalse
  · exact absurd (of_outOfBand hv).1 hfalse
  · refine ⟨h₁, h₂, h₃, ?_⟩
    cases h₄ : risk.selfTrade req symbol mpid with
    | none => rfl
    | some v₄ =>
      rw [h₄, Option.getD_some] at hv
      exact absurd (hv ▸ (of_selfTrade h₄).1) hfalse

end RiskEngine

namespace Shard

variable {kept : Bytes → Prop} {config : Bytes → BookConfig} {σ : Shard} {past : List Message} {ref : OrderId}
  {info : OrderInfo} {req : OrderRequest} {m : Message} {r : Handled}

/-- **An accepted order does not meet its own participant**, if the counter that the check looks at is kept right. -/
theorem Tallied.apart (h : σ.Tallied kept past) (hok : σ.Ok (newRefs past))
    (hkept : kept (RiskEngine.key info.symbol info.mpid req.side.opposite)) {v : RiskEngine.Verdict}
    (hv : σ.verdict req info = .ok v) (ha : v.accepted = true) {o : Order ℤ OrderId}
    (ho : o ∈ (σ.book info.symbol).side req.side.opposite) (hsame : mpids past o.id = info.mpid) : info.mpid = [] := by
  by_contra hne
  obtain ⟨risk, hrisk, heq⟩ := h.counted
  rw [verdict, hrisk] at hv
  obtain ⟨-, -, -, hnone⟩ := RiskEngine.passed_of_accepted hv ha
  obtain ⟨info', hi, hsymbol, hopp⟩ := hok.routed _ _ o ho
  have hmpid : info'.mpid = info.mpid := (h.recorded _ _ hi).trans hsame
  -- its entry is counted where the check has looked
  have hcounter : counterOf info' = some (RiskEngine.key info.symbol info.mpid req.side.opposite) := by
    rw [counterOf, if_neg (hmpid ▸ hne), hsymbol, hopp, hmpid]
  have hpos := (tally_pos (hok.used _ _ hi) hi hcounter).trans_eq (heq _ hkept).symm
  rw [RiskEngine.selfTrade, if_pos ⟨hne, hpos⟩] at hnone
  cases hnone

/-- The trades of a request are with orders of the other side, under its own id. -/
theorem mem_trades {b : Book} {t : Trade} (ht : t ∈ b.trades req) :
    t.takerId = req.id ∧ ∃ o ∈ b.side req.side.opposite, o.id = t.makerId := by
  obtain ⟨f, hf, rfl⟩ := List.mem_map.mp ht
  obtain ⟨o, ho, hid, -⟩ := order_of_mem_fills hf
  exact ⟨rfl, o, ho, hid⟩

/-! ### Counters that symbols share -/

/-- **No counter is mixed**, that is, of a symbol whose books can have a price axis and of one whose books cannot: as
where all books have one window, or no symbol contains the separator. -/
def Unmixed (config : Bytes → BookConfig) (ms : List Message) : Prop :=
  ∀ symbol ∈ ms.filterMap Message.addedSymbol, ∀ symbol' ∈ ms.filterMap Message.addedSymbol, ∀ mpid mpid' side side',
    RiskEngine.key symbol mpid side = RiskEngine.key symbol' mpid' side' →
      (config symbol).Fits → (config symbol').Fits

theorem unmixed_of_plain (config : Bytes → BookConfig) {ms : List Message}
    (h : ∀ symbol ∈ ms.filterMap Message.addedSymbol, Plain symbol) : Unmixed config ms := by
  intro symbol hs symbol' hs' _ _ _ _ hkey hfits
  rwa [← RiskEngine.symbol_eq_of_key_eq (h symbol hs) (h symbol' hs') hkey]

theorem Unmixed.of_append {ms : List Message} (h : Unmixed config (past ++ ms)) : Unmixed config past := by
  rw [Unmixed, List.filterMap_append] at h
  intro symbol hs symbol' hs'
  exact h symbol (List.mem_append_left _ hs) symbol' (List.mem_append_left _ hs')

/-- A counter of no symbol whose books can have no price axis. -/
def Kept (config : Bytes → BookConfig) (ms : List Message) (k : Bytes) : Prop :=
  ∀ symbol ∈ ms.filterMap Message.addedSymbol, ∀ mpid side,
    RiskEngine.key symbol mpid side = k → (config symbol).Fits

/-- **The counters, the table and the windows**, after the messages `past`. -/
structure Watched (config : Bytes → BookConfig) (σ : Shard) (past : List Message) : Prop where
  /-- The counters count the entries of the table. -/
  tallied : σ.Tallied (Kept config past) past
  /-- The symbols in it are those of messages. -/
  known : ∀ ref info, σ.orderSymbol ref = some info → info.symbol ∈ past.filterMap Message.addedSymbol
  /-- Every book has the window that it was made with. -/
  windows : ∀ symbol, (σ.books symbol).initialWindow = (config symbol).initialWindow.toInt

theorem Watched.new (config : Bytes → BookConfig) (cfg : RiskEngine.Config) :
    (new config (some cfg)).Watched config [] where
  tallied := .new _ config cfg
  known ref info hi := by cases hi
  windows _ := rfl

theorem Watched.fits_iff (h : σ.Watched config past) (symbol : Bytes) :
    WindowFits (σ.books symbol).initialWindow ↔ (config symbol).Fits := by rw [h.windows]

theorem Watched.withdrawn (h : σ.Watched config past) (hok : σ.Ok (newRefs past)) (hnd : (newRefs past).Nodup)
    {s : OrderBookV2} (hw : Withdraws σ ref info s) : (σ.withdrawn ref info s).Watched config past where
  tallied := h.tallied.withdrawn hok hnd hw
  known ref' info' hi := h.known ref' info' (of_orderSymbol_withdrawn hi).1
  windows symbol := (window_setBook (hw.window hok) symbol).trans (h.windows symbol)

/-- **Every message keeps this.** -/
theorem Handles.watched (hr : Handles σ m r) (h : σ.Watched config past) (hok : σ.Ok (newRefs past))
    (hnd : (newRefs (past ++ [m])).Nodup) : r.shard.Watched config (past ++ [m]) := by
  have hadded : ∀ symbol ∈ m.addedSymbol, symbol ∈ (past ++ [m]).filterMap Message.addedSymbol := fun symbol hs =>
    List.mem_filterMap.mpr ⟨m, List.mem_append_right _ (List.mem_singleton_self m), hs⟩
  have hold : ∀ symbol ∈ past.filterMap Message.addedSymbol, symbol ∈ (past ++ [m]).filterMap Message.addedSymbol := by
    intro symbol hs
    rw [List.filterMap_append]
    exact List.mem_append_left _ hs
  refine ⟨hr.tallied (h.tallied.mono fun k hk symbol hs => hk symbol (hold symbol hs)) hok hnd ?_,
    hr.symbols hadded fun ref info hi => hold _ (h.known ref info hi),
    fun symbol => (hr.window hok symbol).trans (h.windows symbol)⟩
  exact fun symbol hs mpid side hk => (h.fits_iff symbol).mpr (hk symbol (hadded symbol hs) mpid side rfl)

/-- The counters of a symbol are kept right if an order rests for it. -/
theorem Watched.kept_key (h : σ.Watched config past) (hun : Unmixed config past) (hok : σ.Ok (newRefs past))
    {symbol : Bytes} {side : Side} {o : Order ℤ OrderId} (ho : o ∈ (σ.book symbol).side side) (mpid : Bytes) (side' : Side) :
    Kept config past (RiskEngine.key symbol mpid side') := by
  obtain ⟨info, hi, rfl, -⟩ := hok.routed _ _ o ho
  intro symbol' hs' mpid' side'' hkey
  refine hun info.symbol (h.known _ info hi) symbol' hs' _ _ _ _ hkey.symm ((h.fits_iff info.symbol).mp ?_)
  by_contra hw
  have hmem : o ∈ (σ.book info.symbol).orders := mem_side_orders ho
  rw [show (σ.book info.symbol).orders = [] from (hok.sound info.symbol).orders_eq_nil hw] at hmem
  cases hmem

/-! ### Trades -/

/-- A trade of two orders of one participant, as the messages record them. -/
def SelfTraded (ms : List Message) (t : Trade) : Prop :=
  mpids ms t.makerId = mpids ms t.takerId ∧ mpids ms t.makerId ≠ []

/-- **What `add` has traded last** is between orders that messages have introduced, and of two participants. -/
def Apart (σ : Shard) (past : List Message) : Prop :=
  ∀ t ∈ σ.scratchTrades, t.makerId ∈ newRefs past ∧ t.takerId ∈ newRefs past ∧ ¬ SelfTraded past t

theorem Apart.new (config : Bytes → BookConfig) (risk : Option RiskEngine.Config) : (new config risk).Apart [] :=
  fun _ ht => nomatch ht

/-- A message that does not call `add`. -/
theorem Apart.same {σ' : Shard} (h : σ.Apart past) (hfresh : ∀ ref ∈ m.newRef, ref ∉ newRefs past)
    (htrades : σ'.scratchTrades = σ.scratchTrades) : σ'.Apart (past ++ [m]) := by
  intro t ht
  rw [htrades] at ht
  obtain ⟨hmaker, htaker, hapart⟩ := h t ht
  have hold : ∀ ref ∈ newRefs past, mpids (past ++ [m]) ref = mpids past ref := by
    intro ref href
    rw [mpids_snoc]
    exact recordMpid_of_ne _ fun new hn he => hfresh new hn (he ▸ href)
  rw [newRefs_append, SelfTraded, hold _ hmaker, hold _ htaker]
  exact ⟨List.mem_append_left _ hmaker, List.mem_append_left _ htaker, hapart⟩

/-- **An order that the risk engine accepts** does not trade with its own participant. -/
theorem Watched.apart_added (h : σ.Watched config past) (hun : Unmixed config past) (hok : σ.Ok (newRefs past))
    (hnew : m.newRef = some req.id) (hfresh : req.id ∉ newRefs past) (hmpid : mpids (past ++ [m]) req.id = info.mpid)
    {v : RiskEngine.Verdict} (hv : σ.verdict req info = .ok v) (hacc : v.accepted = true) {a : AddResult}
    (ha : LimitAdded (σ.books info.symbol) req a) {σ' : Shard} (htrades : σ'.scratchTrades = a.trades) :
    σ'.Apart (past ++ [m]) := by
  intro t ht
  rw [htrades, ha.trades] at ht
  obtain ⟨htaker, o, ho, hmaker⟩ := mem_trades ht
  obtain ⟨info', hi, -⟩ := hok.routed _ _ o ho
  have hused : t.makerId ∈ newRefs past := hmaker ▸ hok.used _ _ hi
  have hrefs : newRefs (past ++ [m]) = newRefs past ++ [req.id] := by
    rw [newRefs_append]
    simp [newRefs, hnew]
  rw [hrefs]
  refine ⟨List.mem_append_left _ hused, List.mem_append_right _ (by rw [htaker]; exact List.mem_singleton_self _), ?_⟩
  rintro ⟨hsame, hne⟩
  have hold : mpids (past ++ [m]) t.makerId = mpids past o.id := by
    rw [← hmaker, mpids_snoc, recordMpid_of_ne]
    rintro new hn he
    rw [hnew] at hn
    rw [← Option.mem_some_iff.mp hn] at he
    exact hfresh (he ▸ hok.used _ _ hi)
  have htrader : mpids (past ++ [m]) t.takerId = info.mpid := by rw [htaker, hmpid]
  rw [hsame, htrader] at hne
  refine hne (h.tallied.apart hok (h.kept_key hun hok ho _ _) hv hacc ho ?_)
  rw [← hold, hsame, htrader]

/-- An Add Order message. -/
theorem Apart.adds (h : σ.Apart past) (hw : σ.Watched config past) (hun : Unmixed config past) (hok : σ.Ok (newRefs past))
    (hnew : m.newRef = some req.id) (hfresh : req.id ∉ newRefs past) (hmpid : mpids (past ++ [m]) req.id = info.mpid)
    {timestampNs : UInt64} (hr : Adds σ info req timestampNs r) : r.shard.Apart (past ++ [m]) := by
  cases hr with
  | declined v =>
    refine h.same (fun ref hm => ?_) rfl
    rw [hnew] at hm
    rwa [← Option.mem_some_iff.mp hm]
  | returned v a add hv hacc _ ha => exact hw.apart_added hun hok hnew hfresh hmpid hv hacc ha rfl
  | threw v a what hv hacc _ ha => exact hw.apart_added hun hok hnew hfresh hmpid hv hacc ha rfl
  | escaped v a hv hacc _ ha => exact hw.apart_added hun hok hnew hfresh hmpid hv hacc ha rfl

/-- An Order Replace message. -/
theorem Apart.replaces {m : OrderReplace} (h : σ.Apart past) (hw : σ.Watched config past) (hun : Unmixed config past)
    (hok : σ.Ok (newRefs past)) (hnd : (newRefs past).Nodup) (hfresh : m.newOrderRefNumber ∉ newRefs past)
    (hr : Replaces σ m r) : r.shard.Apart (past ++ [.orderReplace m]) := by
  have hfresh' : ∀ ref ∈ (Message.orderReplace m).newRef, ref ∉ newRefs past := by
    rintro ref hm
    rwa [← Option.mem_some_iff.mp hm]
  have hnext : ∀ {info s v a} {σ' : Shard}, Withdraws σ m.originalOrderRefNumber info s →
      (σ.withdrawn m.originalOrderRefNumber info s).verdict (replaceRequest m info) info = .ok v → v.accepted = true →
      LimitAdded s (replaceRequest m info) a → σ'.scratchTrades = a.trades → σ'.Apart (past ++ [.orderReplace m]) := by
    intro info s v a σ' hs hv hacc ha htrades
    have ha' := added_withdrawn ha σ m.originalOrderRefNumber info
    refine (hw.withdrawn hok hnd hs).apart_added hun (hok.withdrawn hs) rfl hfresh ?_ hv hacc ha' htrades
    rw [mpids_snoc, hw.tallied.recorded _ _ hs.known]
    exact update_self ..
  cases hr with
  | unknown => exact h.same hfresh' rfl
  | declined info s v => exact h.same hfresh' rfl
  | returned info s v a hs hv hacc _ ha => exact hnext hs hv hacc ha rfl
  | threw info s v a what hs hv hacc _ ha => exact hnext hs hv hacc ha rfl
  | escaped info s v a hs hv hacc _ ha => exact hnext hs hv hacc ha rfl

/-- **No message makes a participant trade with itself**, also if an exception leaves it. -/
theorem Handles.apart (hr : Handles σ m r) (h : σ.Apart past) (hw : σ.Watched config past) (hun : Unmixed config past)
    (hok : σ.Ok (newRefs past)) (hnd : (newRefs (past ++ [m])).Nodup) : r.shard.Apart (past ++ [m]) := by
  have hfresh := fresh_of_nodup hnd
  have htakes : ∀ {ref shares counted onRisk event}, TakesShares σ ref shares counted onRisk event r →
      r.shard.Apart (past ++ [m]) := by
    rintro ref shares counted onRisk event (_ | _)
    · exact h.same hfresh rfl
    · exact h.same hfresh rfl
  cases hr with
  | addOrderNoMPID hr =>
    refine h.adds hw hun hok rfl (hfresh _ rfl) ?_ hr
    rw [mpids_snoc]
    exact update_self ..
  | addOrderMPID hr =>
    refine h.adds hw hun hok rfl (hfresh _ rfl) ?_ hr
    rw [mpids_snoc]
    exact update_self ..
  | orderCancel hr => exact htakes hr
  | orderExecuted hr => exact htakes hr
  | nonPrintable => exact h.same hfresh rfl
  | orderExecutedWithPrice _ hr => exact htakes hr
  | orderDelete hr =>
    cases hr with
    | unknown => exact h.same hfresh rfl
    | known => exact h.same hfresh rfl
  | orderReplace hr => exact h.replaces hw hun hok (nodup_of_snoc hnd) (hfresh _ rfl) hr
  | other => exact h.same hfresh rfl

end Shard

end MatchingEngine
