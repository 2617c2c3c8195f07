import Mathlib.Algebra.Group.Basic
import MatchingEngine.Feed.SequencerRuns

/-!
# Symbols do not touch each other

What a shard knows of a symbol is the orders of that symbol in its table, the book, and what
the risk engine keeps for it. Two shards may agree on this for one symbol and on nothing
else (`Shard.Agree`). A message then does the same to both, if the order that it is about is of
that symbol (`local_onMessage`), and it leaves alone what a shard knows of any other symbol.

The risk engine's counts of resting orders are under keys that begin with the symbol and a
separator. A symbol that contains the separator could share a key with another one, so symbols
are taken to be `Plain`. What an MPID contains does not matter.
-/

namespace MatchingEngine

open Foundation Itch Mdfeed Function

/-- The symbol does not contain the separator of the risk engine's keys. -/
def Plain (symbol : Bytes) : Prop := RiskEngine.separator ∉ symbol

/-! ### The risk engine -/

namespace RiskEngine

/-- A key begins with its symbol, and no other one. -/
theorem symbol_eq_of_key_eq {symbol symbol' mpid mpid' : Bytes} {side side' : Side} (h : Plain symbol)
    (h' : Plain symbol') (he : key symbol mpid side = key symbol' mpid' side') : symbol = symbol' := by
  have htake : ∀ {s : Bytes} (rest : Bytes), Plain s → (s ++ separator :: rest).takeWhile (· ≠ separator) = s := by
    intro s rest hs
    rw [List.takeWhile_append_of_pos, List.takeWhile_cons_of_neg (by simp), List.append_nil]
    intro b hb
    simp only [decide_eq_true_eq]
    rintro rfl
    exact hs hb
  rw [← htake _ h, ← htake _ h']
  exact congrArg _ he

/-- What the engine keeps for a symbol. -/
def view (risk : RiskEngine) (symbol : Bytes) : Config × Option ℤ × (Bytes → Side → ℕ) :=
  (risk.cfg, risk.lastTradePrice symbol, fun mpid side => risk.restingCount (key symbol mpid side))

/-- **A check looks at one symbol only.** -/
theorem check_congr {risk risk' : RiskEngine} {symbol : Bytes} (h : risk.view symbol = risk'.view symbol)
    (req : OrderRequest) (mpid : Bytes) (book : OrderBookV2) :
    risk.check req symbol mpid book = risk'.check req symbol mpid book := by
  obtain ⟨hcfg, hrest⟩ := Prod.mk.inj h
  obtain ⟨hprice, hcount⟩ := Prod.mk.inj hrest
  have hcount' : risk.restingCount (key symbol mpid req.side.opposite) =
      risk'.restingCount (key symbol mpid req.side.opposite) := congrFun (congrFun hcount mpid) req.side.opposite
  have hself : risk.selfTrade req symbol mpid = risk'.selfTrade req symbol mpid := by
    rw [selfTrade, selfTrade, hcount']
  have hreference : risk.reference symbol book = risk'.reference symbol book := by
    rw [reference, reference, hprice]
  have hband : risk.outOfBand req = risk'.outOfBand req := by
    funext p
    simp only [outOfBand, hcfg]
  rw [check, check, tooLarge, tooLarge, outOfBounds, outOfBounds, hself, hreference, hband, hcfg]

/-- **A step of the engine is about one symbol**: it depends on nothing else that the engine keeps, and
changes nothing else. -/
structure ActsOn (symbol : Bytes) (f : RiskEngine → RiskEngine) : Prop where
  /-- It depends on what is kept for the symbol. -/
  congr : ∀ {risk risk' : RiskEngine}, risk.view symbol = risk'.view symbol →
    (f risk).view symbol = (f risk').view symbol
  /-- It leaves alone what is kept for the others. -/
  frame : ∀ {risk : RiskEngine} {symbol' : Bytes}, Plain symbol → Plain symbol' → symbol' ≠ symbol →
    (f risk).view symbol' = risk.view symbol'

variable {symbol : Bytes}

theorem ActsOn.id : ActsOn symbol id := ⟨fun h => h, fun _ _ _ => rfl⟩

theorem actsOn_onTrade (symbol : Bytes) (price : ℤ) : ActsOn symbol fun risk => risk.onTrade symbol price where
  congr h := by
    obtain ⟨hcfg, hrest⟩ := Prod.mk.inj h
    obtain ⟨-, hcount⟩ := Prod.mk.inj hrest
    simp only [view, onTrade, update_self]
    rw [hcfg]
    exact congrArg _ (congrArg _ hcount)
  frame _ _ hne := by simp [view, onTrade, hne]

/-- Trades are of one symbol. -/
theorem actsOn_noteTrades (symbol : Bytes) (trades : List Trade) :
    ActsOn symbol (Shard.noteTrades symbol trades) := by
  induction trades with
  | nil => exact .id
  | cons t trades ih =>
    have ht := actsOn_onTrade symbol t.price
    exact ⟨fun h => ih.congr (ht.congr h), fun hp hp' hne => (ih.frame hp hp' hne).trans (ht.frame hp hp' hne)⟩

/-- A count changes that is kept under a key of the symbol. -/
theorem actsOn_count (symbol mpid : Bytes) (side : Side) (g : ℕ → ℕ) :
    ActsOn symbol fun risk => { risk with
      restingCount := update risk.restingCount (key symbol mpid side) (g (risk.restingCount (key symbol mpid side))) } where
  congr {risk risk'} h := by
    obtain ⟨hcfg, hrest⟩ := Prod.mk.inj h
    obtain ⟨hprice, hcount⟩ := Prod.mk.inj hrest
    have hkey : ∀ mpid side, risk.restingCount (key symbol mpid side) = risk'.restingCount (key symbol mpid side) :=
      fun mpid side => congrFun (congrFun hcount mpid) side
    simp only [view, hcfg, hprice]
    refine congrArg _ (congrArg _ ?_)
    funext mpid' side'
    by_cases hk : key symbol mpid' side' = key symbol mpid side
    · simp [hk, hkey]
    · simp [hk, hkey]
  frame hp hp' hne := by
    simp only [view]
    refine congrArg _ (congrArg _ ?_)
    funext mpid' side'
    exact update_of_ne (fun he => hne (symbol_eq_of_key_eq hp' hp he)) ..

theorem actsOn_noteResting (symbol mpid : Bytes) (side : Side) :
    ActsOn symbol fun risk => risk.noteResting symbol mpid side := by
  by_cases hm : mpid = []
  · simp only [noteResting, if_pos hm]
    exact .id
  · simp only [noteResting, if_neg hm]
    exact actsOn_count symbol mpid side (· + 1)

theorem actsOn_noteRemoved (symbol mpid : Bytes) (side : Side) :
    ActsOn symbol fun risk => risk.noteRemoved symbol mpid side := by
  by_cases hm : mpid = []
  · simp only [noteRemoved, if_pos hm]
    exact .id
  · simp only [noteRemoved, if_neg hm]
    exact actsOn_count symbol mpid side (· - 1)

end RiskEngine

/-! ### Counters add up -/

attribute [ext] Stats

instance : Zero Stats := ⟨{}⟩

/-- Counters are added one by one. -/
instance : Add Stats where
  add s t :=
    { addOrders := s.addOrders + t.addOrders
      cancels := s.cancels + t.cancels
      deletes := s.deletes + t.deletes
      executes := s.executes + t.executes
      nonPrintableSkipped := s.nonPrintableSkipped + t.nonPrintableSkipped
      replaces := s.replaces + t.replaces
      unrouted := s.unrouted + t.unrouted
      otherMessageTypes := s.otherMessageTypes + t.otherMessageTypes
      tradesProduced := s.tradesProduced + t.tradesProduced
      addRejected := s.addRejected + t.addRejected
      riskRejected := s.riskRejected + t.riskRejected }

instance : AddCommMonoid Stats where
  add_assoc s t u := Stats.ext (Nat.add_assoc ..) (Nat.add_assoc ..) (Nat.add_assoc ..) (Nat.add_assoc ..)
    (Nat.add_assoc ..) (Nat.add_assoc ..) (Nat.add_assoc ..) (Nat.add_assoc ..) (Nat.add_assoc ..) (Nat.add_assoc ..)
    (Nat.add_assoc ..)
  zero_add s := Stats.ext (Nat.zero_add _) (Nat.zero_add _) (Nat.zero_add _) (Nat.zero_add _) (Nat.zero_add _)
    (Nat.zero_add _) (Nat.zero_add _) (Nat.zero_add _) (Nat.zero_add _) (Nat.zero_add _) (Nat.zero_add _)
  add_zero _ := rfl
  add_comm s t := Stats.ext (Nat.add_comm ..) (Nat.add_comm ..) (Nat.add_comm ..) (Nat.add_comm ..)
    (Nat.add_comm ..) (Nat.add_comm ..) (Nat.add_comm ..) (Nat.add_comm ..) (Nat.add_comm ..) (Nat.add_comm ..)
    (Nat.add_comm ..)
  nsmul := nsmulRec

/-- The reference number whose entry a message removes from the table. -/
def Itch.Message.oldRef : Message → Option OrderId
  | .orderDelete m => some m.orderRefNumber
  | .orderReplace m => some m.originalOrderRefNumber
  | _ => none

/-- The numbers under which a message may write in the table. -/
def Itch.Message.writes (m : Message) : List OrderId := m.oldRef.toList ++ m.newRef.toList

/-- The symbol of a report, or of an event. -/
def Emitted.symbol : Emitted → Bytes
  | .report rep => rep.symbol
  | .event e => symbolStr e.symbol

namespace Shard

variable {σ τ υ : Shard} {symbol symbol' : Bytes} {ref : OrderId} {refs : List OrderId} {info : OrderInfo}
  {req : OrderRequest} {used : List OrderId} {m : Message} {r : Handled}

/-! ### Agreement -/

/-- **Two shards agree on a symbol.** -/
structure Agree (symbol : Bytes) (σ τ : Shard) : Prop where
  /-- They know the same orders of it. -/
  order : ∀ {ref info}, info.symbol = symbol → (σ.orderSymbol ref = some info ↔ τ.orderSymbol ref = some info)
  /-- They have the same book. -/
  book : σ.books symbol = τ.books symbol
  /-- Their risk engines keep the same for it. -/
  risk : Plain symbol → σ.risk.map (·.view symbol) = τ.risk.map (·.view symbol)

theorem Agree.refl (symbol : Bytes) (σ : Shard) : Agree symbol σ σ := ⟨fun _ => Iff.rfl, rfl, fun _ => rfl⟩

theorem Agree.symm (h : Agree symbol σ τ) : Agree symbol τ σ :=
  ⟨fun hs => (h.order hs).symm, h.book.symm, fun hp => (h.risk hp).symm⟩

theorem Agree.trans (h : Agree symbol σ τ) (h' : Agree symbol τ υ) : Agree symbol σ υ :=
  ⟨fun hs => (h.order hs).trans (h'.order hs), h.book.trans h'.book, fun hp => (h.risk hp).trans (h'.risk hp)⟩

/-- Both have a risk engine, or none has. -/
theorem Agree.risk_cases (h : Agree symbol σ τ) (hp : Plain symbol) : (σ.risk = none ∧ τ.risk = none) ∨
    ∃ risk risk', σ.risk = some risk ∧ τ.risk = some risk' ∧ risk.view symbol = risk'.view symbol := by
  have hr := h.risk hp
  cases hσ : σ.risk with
  | none =>
    rw [hσ, Option.map_none, eq_comm, Option.map_eq_none_iff] at hr
    exact Or.inl ⟨rfl, hr⟩
  | some risk =>
    rw [hσ, Option.map_some, eq_comm, Option.map_eq_some_iff] at hr
    obtain ⟨risk', hτ, hview⟩ := hr
    exact Or.inr ⟨risk, risk', rfl, hτ, hview.symm⟩

/-- They give the same verdicts on its orders. -/
theorem Agree.verdict (h : Agree info.symbol σ τ) (hp : Plain info.symbol) (req : OrderRequest) :
    τ.verdict req info = σ.verdict req info := by
  rw [Shard.verdict, Shard.verdict, h.book]
  obtain ⟨hσ, hτ⟩ | ⟨risk, risk', hσ, hτ, hview⟩ := h.risk_cases hp
  · rw [hσ, hτ]
  · rw [hσ, hτ]
    exact (RiskEngine.check_congr hview req info.mpid _).symm

/-! ### Acting on one symbol -/

/-- The entries that the table has under some numbers are of one symbol. -/
def OnlyOf (symbol : Bytes) (refs : List OrderId) (σ : Shard) : Prop :=
  ∀ ref ∈ refs, ∀ info, σ.orderSymbol ref = some info → info.symbol = symbol

/-- **A change is about one symbol**: it depends on what a shard knows of it, and leaves alone what it knows of
the others. It may write under the numbers `refs`. -/
structure Acts (symbol : Bytes) (refs : List OrderId) (f : Shard → Shard) : Prop where
  /-- It does the same to shards that agree on the symbol. -/
  congr : ∀ {σ τ : Shard}, Agree symbol σ τ → Agree symbol (f σ) (f τ)
  /-- It leaves alone the other symbols. -/
  frame : ∀ {σ : Shard} {symbol' : Bytes}, OnlyOf symbol refs σ → symbol' ≠ symbol → Agree symbol' σ (f σ)
  /-- It writes entries of the symbol. -/
  keeps : ∀ {σ : Shard}, OnlyOf symbol refs σ → OnlyOf symbol refs (f σ)
  /-- It counts the same, whatever has been counted. -/
  counts : ∃ d, ∀ σ, (f σ).stats = σ.stats + d

/-- One change after another. -/
theorem Acts.then {f g : Shard → Shard} (hf : Acts symbol refs f) (hg : Acts symbol refs g) :
    Acts symbol refs fun σ => g (f σ) where
  congr h := hg.congr (hf.congr h)
  frame ho hne := (hf.frame ho hne).trans (hg.frame (hf.keeps ho) hne)
  keeps ho := hg.keeps (hf.keeps ho)
  counts := by
    obtain ⟨d, hd⟩ := hf.counts
    obtain ⟨d', hd'⟩ := hg.counts
    exact ⟨d + d', fun σ => by rw [hd', hd, add_assoc]⟩

theorem acts_setBook (symbol : Bytes) (refs : List OrderId) (s : OrderBookV2) :
    Acts symbol refs fun σ => σ.setBook symbol s where
  congr h := ⟨h.order, by simp [setBook], h.risk⟩
  frame _ hne := ⟨fun _ => Iff.rfl, by simp [setBook, hne], fun _ => rfl⟩
  keeps ho := ho
  counts := ⟨0, fun _ => rfl⟩

/-- The trades of the last order are not what a shard knows of a symbol. -/
theorem acts_afterAdd (symbol : Bytes) (refs : List OrderId) (a : OrderBookV2.AddResult) :
    Acts symbol refs fun σ => σ.afterAdd symbol a where
  congr h := ⟨h.order, ((acts_setBook symbol refs a.book).congr h).book, h.risk⟩
  frame ho hne := ⟨fun _ => Iff.rfl, ((acts_setBook symbol refs a.book).frame ho hne).book, fun _ => rfl⟩
  keeps ho := ho
  counts := ⟨0, fun _ => rfl⟩

theorem acts_setOrder (hs : info.symbol = symbol) (hr : ref ∈ refs) :
    Acts symbol refs fun σ => σ.setOrder ref info where
  congr {σ τ} h := by
    refine ⟨fun {ref' info'} hs' => ?_, h.book, h.risk⟩
    by_cases he : ref' = ref
    · subst he
      simp [setOrder]
    · simpa [setOrder, he] using h.order hs'
  frame {σ symbol'} ho hne := by
    refine ⟨fun {ref' info'} hs' => ?_, rfl, fun _ => rfl⟩
    by_cases he : ref' = ref
    · -- neither the old entry nor the new one is of the other symbol
      subst he
      simp only [setOrder, update_self]
      refine ⟨fun hold => absurd (hs'.symm.trans (ho ref' hr info' hold)) hne, fun hnew => ?_⟩
      obtain rfl := Option.some.inj hnew
      exact absurd (hs'.symm.trans hs) hne
    · simp [setOrder, he]
  keeps {σ} ho ref' hr' info' h := by
    have h' : update σ.orderSymbol ref (some info) ref' = some info' := h
    by_cases he : ref' = ref
    · subst he
      rw [update_self] at h'
      exact (Option.some.inj h') ▸ hs
    · rw [update_of_ne he] at h'
      exact ho ref' hr' info' h'
  counts := ⟨0, fun _ => rfl⟩

theorem acts_eraseOrder (symbol : Bytes) (hr : ref ∈ refs) : Acts symbol refs fun σ => σ.eraseOrder ref where
  congr {σ τ} h := by
    refine ⟨fun {ref' info'} hs' => ?_, h.book, h.risk⟩
    by_cases he : ref' = ref
    · subst he
      simp [eraseOrder]
    · simpa [eraseOrder, he] using h.order hs'
  frame {σ symbol'} ho hne := by
    refine ⟨fun {ref' info'} hs' => ?_, rfl, fun _ => rfl⟩
    by_cases he : ref' = ref
    · subst he
      simp only [eraseOrder, update_self, reduceCtorEq, iff_false]
      exact fun hold => hne (hs'.symm.trans (ho ref' hr info' hold))
    · simp [eraseOrder, he]
  keeps {σ} ho ref' hr' info' h := by
    have h' : update σ.orderSymbol ref none ref' = some info' := h
    by_cases he : ref' = ref
    · subst he
      rw [update_self] at h'
      cases h'
    · rw [update_of_ne he] at h'
      exact ho ref' hr' info' h'
  counts := ⟨0, fun _ => rfl⟩

theorem acts_count (symbol : Bytes) (refs : List OrderId) {counted : Stats → Stats} (h : ∃ d, ∀ s, counted s = s + d) :
    Acts symbol refs fun σ => σ.count counted where
  congr h := ⟨h.order, h.book, h.risk⟩
  frame _ _ := ⟨fun _ => Iff.rfl, rfl, fun _ => rfl⟩
  keeps ho := ho
  counts := by
    obtain ⟨d, hd⟩ := h
    exact ⟨d, fun σ => hd σ.stats⟩

theorem acts_withRisk (hp : Plain symbol) (refs : List OrderId) {f : RiskEngine → RiskEngine}
    (hf : RiskEngine.ActsOn symbol f) : Acts symbol refs fun σ => σ.withRisk f where
  congr {σ τ} h := by
    refine ⟨h.order, h.book, fun _ => ?_⟩
    simp only [withRisk, Option.map_map]
    obtain ⟨hσ, hτ⟩ | ⟨risk, risk', hσ, hτ, hview⟩ := h.risk_cases hp
    · rw [hσ, hτ]
    · rw [hσ, hτ]
      exact congrArg some (hf.congr hview)
  frame {σ symbol'} _ hne := by
    refine ⟨fun _ => Iff.rfl, rfl, fun hp' => ?_⟩
    simp only [withRisk, Option.map_map]
    cases σ.risk with
    | none => rfl
    | some risk => exact congrArg some (hf.frame hp hp' hne).symm
  keeps ho := ho
  counts := ⟨0, fun _ => rfl⟩

/-! ### The handlers -/

/-- **A call is about one symbol.** All shards that agree with `σ` on it do the same, and `r` is what `σ` does. -/
def Local (σ : Shard) (symbol : Bytes) (refs : List OrderId) (call : Shard → Except Ub Handled) (r : Handled) : Prop :=
  ∃ f, Acts symbol refs f ∧ ∀ τ, Agree symbol σ τ → call τ = .ok ⟨f τ, r.emitted, r.escaped⟩

theorem acts_submitted (hp : Plain info.symbol) (hr : req.id ∈ refs) (a : OrderBookV2.AddResult)
    {counted : Stats → Stats} (hc : ∃ d, ∀ s, counted s = s + d) :
    Acts info.symbol refs fun σ => σ.submitted req info a counted :=
  ((((acts_setOrder rfl hr).then (acts_afterAdd _ _ a)).then (acts_count _ _ hc)).then
    (acts_withRisk hp _ (RiskEngine.actsOn_noteResting ..))).then (acts_withRisk hp _ (RiskEngine.actsOn_noteTrades ..))

theorem acts_withdrawn (hp : Plain info.symbol) (hr : ref ∈ refs) (s : OrderBookV2) :
    Acts info.symbol refs fun σ => σ.withdrawn ref info s :=
  ((acts_setBook _ _ _).then (acts_withRisk hp _ (RiskEngine.actsOn_noteRemoved ..))).then (acts_eraseOrder _ hr)

theorem Adds.isLocal {m : AddOrderNoMPID} {mpid : Bytes} {r : Handled}
    (hr : Adds σ (infoOf m mpid) (limitRequest m.orderRefNumber (infoOf m mpid) m.price m.shares) m.h.timestampNs r)
    (hp : Plain (infoOf m mpid).symbol) :
    Local σ (infoOf m mpid).symbol [m.orderRefNumber] (fun τ => τ.addOrder m mpid) r := by
  have hmem : (limitRequest m.orderRefNumber (infoOf m mpid) m.price m.shares).id ∈ [m.orderRefNumber] :=
    List.mem_singleton_self _
  cases hr with
  | declined v hv hacc =>
    refine ⟨_, acts_count _ _ ⟨{ riskRejected := 1 }, fun _ => rfl⟩, fun τ hτ => ?_⟩
    dsimp only
    rw [Shard.addOrder, hτ.verdict hp, hv, ok_bind, hacc]
    rfl
  | returned v a add hv hacc ha _ hthrown hadd =>
    refine ⟨_, acts_submitted hp hmem a ⟨{ addOrders := 1, tradesProduced := a.trades.length }, fun _ => rfl⟩,
      fun τ hτ => ?_⟩
    dsimp only
    rw [Shard.addOrder, hτ.verdict hp, hv, ok_bind, hacc, ← hτ.book]
    simp only [Bool.not_true, Bool.false_eq_true, if_false]
    rw [ha, ok_bind, hthrown, hadd]
    rfl
  | threw v a what hv hacc ha _ hthrown =>
    refine ⟨_, ((acts_setOrder rfl hmem).then (acts_afterAdd _ _ a)).then
      ((acts_eraseOrder _ hmem).then (acts_count _ _ ⟨{ addRejected := 1 }, fun _ => rfl⟩)), fun τ hτ => ?_⟩
    dsimp only
    rw [Shard.addOrder, hτ.verdict hp, hv, ok_bind, hacc, ← hτ.book]
    simp only [Bool.not_true, Bool.false_eq_true, if_false]
    rw [ha, ok_bind, hthrown]
    rfl
  | escaped v a hv hacc ha _ hthrown =>
    refine ⟨_, (acts_setOrder rfl hmem).then (acts_afterAdd _ _ a), fun τ hτ => ?_⟩
    dsimp only
    rw [Shard.addOrder, hτ.verdict hp, hv, ok_bind, hacc, ← hτ.book]
    simp only [Bool.not_true, Bool.false_eq_true, if_false]
    rw [ha, ok_bind, hthrown]

/-- Shares are taken from an order that the table knows. -/
theorem local_takeShares (hi : σ.orderSymbol ref = some info) (hp : Plain info.symbol) {shares : UInt32}
    {counted : Stats → Stats} (hc : ∃ d, ∀ s, counted s = s + d) {onRisk : OrderInfo → RiskEngine → RiskEngine}
    (hon : RiskEngine.ActsOn info.symbol (onRisk info)) {event : OrderInfo → MDEvent} {r : Handled}
    (hrun : σ.takeShares ref shares counted onRisk event = .ok r) :
    Local σ info.symbol [] (fun τ => τ.takeShares ref shares counted onRisk event) r := by
  rw [takeShares, hi] at hrun
  obtain ⟨⟨found, s⟩, hs, hrun⟩ := bind_eq_ok.mp hrun
  cases hrun
  refine ⟨_, ((acts_setBook _ _ s).then (acts_withRisk hp _ hon)).then (acts_count _ _ hc), fun τ hτ => ?_⟩
  dsimp only
  rw [takeShares, (hτ.order rfl).mp hi]
  dsimp only
  rw [← hτ.book, hs]
  rfl

theorem Withdraws.isLocal {m : OrderDelete} {s : OrderBookV2} (hw : Withdraws σ m.orderRefNumber info s)
    (hp : Plain info.symbol) : Local σ info.symbol [m.orderRefNumber] (fun τ => τ.orderDelete m)
      ⟨(σ.withdrawn m.orderRefNumber info s).count fun s => { s with deletes := s.deletes + 1 },
        [.event { type := .delete, side := info.side, timestampNs := m.h.timestampNs, orderId := m.orderRefNumber
                  symbol := symbolPad info.symbol }], none⟩ := by
  obtain ⟨found, hs⟩ := hw.cancelled
  refine ⟨_, (acts_withdrawn hp (List.mem_singleton_self _) s).then
    (acts_count _ _ ⟨{ deletes := 1 }, fun _ => rfl⟩), fun τ hτ => ?_⟩
  dsimp only
  rw [orderDelete, (hτ.order rfl).mp hw.known]
  dsimp only
  rw [← hτ.book, hs]
  rfl

/-- An order is replaced that the table knows. -/
theorem Replaces.isLocal {m : OrderReplace} {r : Handled} (hr : Replaces σ m r)
    (hi : σ.orderSymbol m.originalOrderRefNumber = some info) (hp : Plain info.symbol) :
    Local σ info.symbol [m.originalOrderRefNumber, m.newOrderRefNumber] (fun τ => τ.orderReplace m) r := by
  have hnew : (replaceRequest m info).id ∈ [m.originalOrderRefNumber, m.newOrderRefNumber] :=
    List.mem_cons_of_mem _ (List.mem_singleton_self _)
  have hact : ∀ s, Acts info.symbol [m.originalOrderRefNumber, m.newOrderRefNumber] fun τ =>
      τ.withdrawn m.originalOrderRefNumber info s := fun s => acts_withdrawn hp List.mem_cons_self s
  have hinfo : ∀ {info'}, σ.orderSymbol m.originalOrderRefNumber = some info' → info' = info := fun h =>
    Option.some.inj (h.symm.trans hi)
  cases hr with
  | unknown hn =>
    rw [hi] at hn
    cases hn
  | declined info' s v hw hv hacc =>
    obtain rfl := hinfo hw.known
    obtain ⟨found, hs⟩ := hw.cancelled
    refine ⟨_, (hact s).then (acts_count _ _ ⟨{ riskRejected := 1 }, fun _ => rfl⟩), fun τ hτ => ?_⟩
    have hv' := ((hact s).congr hτ).verdict hp (replaceRequest m info')
    simp only [replaceRequest, Shard.withdrawn] at hv hv'
    simp only [orderReplace, (hτ.order rfl).mp hi]
    rw [← hτ.book, hs, ok_bind]
    dsimp only
    rw [hv', hv, ok_bind, hacc]
    rfl
  | returned info' s v a hw hv hacc ha _ hthrown =>
    obtain rfl := hinfo hw.known
    obtain ⟨found, hs⟩ := hw.cancelled
    refine ⟨_, (hact s).then (acts_submitted hp hnew a
      ⟨{ replaces := 1, tradesProduced := a.trades.length }, fun _ => rfl⟩), fun τ hτ => ?_⟩
    have hv' := ((hact s).congr hτ).verdict hp (replaceRequest m info')
    have hbooks := books_withdrawn τ m.originalOrderRefNumber info' s
    simp only [replaceRequest, Shard.withdrawn] at hv hv' ha hbooks
    simp only [orderReplace, (hτ.order rfl).mp hi]
    rw [← hτ.book, hs, ok_bind]
    dsimp only
    rw [hv', hv, ok_bind, hacc]
    simp only [Bool.not_true, Bool.false_eq_true, if_false]
    rw [hbooks, ha, ok_bind, hthrown]
    rfl
  | threw info' s v a what hw hv hacc ha _ hthrown =>
    obtain rfl := hinfo hw.known
    obtain ⟨found, hs⟩ := hw.cancelled
    refine ⟨_, (hact s).then ((acts_afterAdd _ _ a).then
      (acts_count _ _ ⟨{ addRejected := 1 }, fun _ => rfl⟩)), fun τ hτ => ?_⟩
    have hv' := ((hact s).congr hτ).verdict hp (replaceRequest m info')
    have hbooks := books_withdrawn τ m.originalOrderRefNumber info' s
    simp only [replaceRequest, Shard.withdrawn] at hv hv' ha hbooks
    simp only [orderReplace, (hτ.order rfl).mp hi]
    rw [← hτ.book, hs, ok_bind]
    dsimp only
    rw [hv', hv, ok_bind, hacc]
    simp only [Bool.not_true, Bool.false_eq_true, if_false]
    rw [hbooks, ha, ok_bind, hthrown]
    rfl
  | escaped info' s v a hw hv hacc ha _ hthrown =>
    obtain rfl := hinfo hw.known
    obtain ⟨found, hs⟩ := hw.cancelled
    refine ⟨_, (hact s).then (acts_afterAdd _ _ a), fun τ hτ => ?_⟩
    have hv' := ((hact s).congr hτ).verdict hp (replaceRequest m info')
    have hbooks := books_withdrawn τ m.originalOrderRefNumber info' s
    simp only [replaceRequest, Shard.withdrawn] at hv hv' ha hbooks
    simp only [orderReplace, (hτ.order rfl).mp hi]
    rw [← hτ.book, hs, ok_bind]
    dsimp only
    rw [hv', hv, ok_bind, hacc]
    simp only [Bool.not_true, Bool.false_eq_true, if_false]
    rw [hbooks, ha, ok_bind, hthrown]
    rfl

/-! ### Messages -/

/-- The symbol of the order that a message is about, as far as the shard knows it. -/
def symbolOf (σ : Shard) : Message → Option Bytes
  | .addOrderNoMPID m => some m.stock.str
  | .addOrderMPID m => some m.stock.str
  | .orderCancel m => (σ.orderSymbol m.orderRefNumber).map (·.symbol)
  | .orderDelete m => (σ.orderSymbol m.orderRefNumber).map (·.symbol)
  | .orderExecuted m => (σ.orderSymbol m.orderRefNumber).map (·.symbol)
  | .orderExecutedWithPrice m =>
    if m.printable = 78 then none else (σ.orderSymbol m.orderRefNumber).map (·.symbol)
  | .orderReplace m => (σ.orderSymbol m.originalOrderRefNumber).map (·.symbol)
  | _ => none

/-- **A message does the same to all shards that agree on the symbol of its order.** -/
theorem Handles.isLocal (hr : Handles σ m r) (hrun : σ.onMessage m = .ok r) (hs : σ.symbolOf m = some symbol)
    (hp : Plain symbol) : Local σ symbol m.writes (fun τ => τ.onMessage m) r := by
  cases hr with
  | addOrderNoMPID hr =>
    obtain rfl := Option.some.inj hs
    exact hr.isLocal hp
  | addOrderMPID hr =>
    obtain rfl := Option.some.inj hs
    exact hr.isLocal hp
  | orderCancel hr =>
    obtain ⟨info, hi, rfl⟩ := Option.map_eq_some_iff.mp hs
    exact local_takeShares hi hp ⟨{ cancels := 1 }, fun _ => rfl⟩ .id hrun
  | orderExecuted hr =>
    obtain ⟨info, hi, rfl⟩ := Option.map_eq_some_iff.mp hs
    exact local_takeShares hi hp ⟨{ executes := 1 }, fun _ => rfl⟩ .id hrun
  | nonPrintable hn =>
    rw [symbolOf, if_pos hn] at hs
    cases hs
  | orderExecutedWithPrice hn hr =>
    rw [symbolOf, if_neg hn] at hs
    obtain ⟨info, hi, rfl⟩ := Option.map_eq_some_iff.mp hs
    simp only [Shard.onMessage, Shard.orderExecutedWithPrice, if_neg hn] at hrun ⊢
    exact local_takeShares hi hp ⟨{ executes := 1 }, fun _ => rfl⟩ 
      (RiskEngine.actsOn_onTrade info.symbol _) hrun
  | orderDelete hr =>
    obtain ⟨info, hi, rfl⟩ := Option.map_eq_some_iff.mp hs
    cases hr with
    | unknown hn =>
      rw [hi] at hn
      cases hn
    | known info' s hw =>
      obtain rfl : info' = info := Option.some.inj (hw.known.symm.trans hi)
      exact hw.isLocal hp
  | orderReplace hr =>
    obtain ⟨info, hi, rfl⟩ := Option.map_eq_some_iff.mp hs
    exact hr.isLocal hi hp
  | other hn => cases m <;> cases hn <;> cases hs

/-- `τ` knows no order that `σ` does not know. -/
def Below (τ σ : Shard) : Prop := ∀ ref info, τ.orderSymbol ref = some info → σ.orderSymbol ref = some info

theorem Below.eq_none (h : Below τ σ) (hn : σ.orderSymbol ref = none) : τ.orderSymbol ref = none := by
  cases hτ : τ.orderSymbol ref with
  | none => rfl
  | some info =>
    rw [h ref info hτ] at hn
    cases hn

/-- **A call only counts something**, and so it does for a shard that knows no more orders than `σ`. -/
def OnlyCounts (σ : Shard) (call : Shard → Except Ub Handled) (r : Handled) : Prop :=
  ∃ d, r = ⟨σ.count (· + d), [], none⟩ ∧ ∀ τ, Below τ σ → call τ = .ok ⟨τ.count (· + d), [], none⟩

theorem TakesShares.onlyCounts {shares : UInt32} {counted : Stats → Stats} {onRisk : OrderInfo → RiskEngine → RiskEngine}
    {event : OrderInfo → MDEvent} (hr : TakesShares σ ref shares counted onRisk event r)
    (hs : (σ.orderSymbol ref).map (·.symbol) = none) :
    OnlyCounts σ (fun τ => τ.takeShares ref shares counted onRisk event) r := by
  rw [Option.map_eq_none_iff] at hs
  cases hr with
  | unknown hn =>
    refine ⟨{ unrouted := 1 }, rfl, fun τ hτ => ?_⟩
    simp only [takeShares, hτ.eq_none hn]
    rfl
  | known info s hi =>
    rw [hs] at hi
    cases hi

/-- **A message that is about no order that the shard knows is only counted.** -/
theorem Handles.onlyCounts (hr : Handles σ m r) (hs : σ.symbolOf m = none) :
    OnlyCounts σ (fun τ => τ.onMessage m) r := by
  cases hr with
  | addOrderNoMPID hr => cases hs
  | addOrderMPID hr => cases hs
  | orderCancel hr => exact hr.onlyCounts hs
  | orderExecuted hr => exact hr.onlyCounts hs
  | nonPrintable hn => exact ⟨{ nonPrintableSkipped := 1 }, rfl, fun τ _ => if_pos hn⟩
  | orderExecutedWithPrice hn hr =>
    rw [symbolOf, if_neg hn] at hs
    simp only [Shard.onMessage, Shard.orderExecutedWithPrice, if_neg hn]
    exact hr.onlyCounts hs
  | orderDelete hr =>
    rw [symbolOf, Option.map_eq_none_iff] at hs
    cases hr with
    | unknown hn =>
      refine ⟨{ unrouted := 1 }, rfl, fun τ hτ => ?_⟩
      simp only [Shard.onMessage, Shard.orderDelete, hτ.eq_none hn]
      rfl
    | known info s hw =>
      rw [hw.known] at hs
      cases hs
  | orderReplace hr =>
    rw [symbolOf, Option.map_eq_none_iff] at hs
    cases hr with
    | unknown hn =>
      refine ⟨{ unrouted := 1 }, rfl, fun τ hτ => ?_⟩
      simp only [Shard.onMessage, Shard.orderReplace, hτ.eq_none hn]
      rfl
    | declined info s v hw =>
      rw [hw.known] at hs
      cases hs
    | returned info s v a hw =>
      rw [hw.known] at hs
      cases hs
    | threw info s v a what hw =>
      rw [hw.known] at hs
      cases hs
    | escaped info s v a hw =>
      rw [hw.known] at hs
      cases hs
  | other hn =>
    refine ⟨{ otherMessageTypes := 1 }, rfl, fun τ _ => ?_⟩
    cases m <;> cases hn <;> rfl

/-! ### What is emitted -/

theorem symbol_of_mem_tradeOutputs (htrim : symbolStr (symbolPad info.symbol) = info.symbol) {timestampNs : UInt64}
    {trades : List Trade} {e : Emitted} (he : e ∈ tradeOutputs req info timestampNs trades) : e.symbol = info.symbol := by
  obtain ⟨t, -, he⟩ := List.mem_flatMap.mp he
  simp only [List.mem_cons, List.not_mem_nil, or_false] at he
  obtain rfl | rfl := he
  · rfl
  · exact htrim

theorem Adds.symbol_of_mem {timestampNs : UInt64} (hr : Adds σ info req timestampNs r)
    (htrim : symbolStr (symbolPad info.symbol) = info.symbol) :
    ∀ e ∈ r.emitted, e.symbol = info.symbol := by
  intro e he
  cases hr with
  | declined v =>
    obtain rfl := List.mem_singleton.mp he
    rfl
  | returned v a add _ _ _ _ _ hadd =>
    simp only [List.cons_append, List.mem_cons, List.mem_append] at he
    obtain rfl | he | he := he
    · rfl
    · split_ifs at he
      · obtain rfl := List.mem_singleton.mp he
        rw [hadd]
        exact htrim
      · cases he
    · exact symbol_of_mem_tradeOutputs htrim he
  | threw v a what =>
    obtain rfl := List.mem_singleton.mp he
    rfl
  | escaped v a => cases he

theorem TakesShares.symbol_of_mem {shares : UInt32} {counted : Stats → Stats}
    {onRisk : OrderInfo → RiskEngine → RiskEngine} {event : OrderInfo → MDEvent}
    (hr : TakesShares σ ref shares counted onRisk event r) (hevent : ∀ info, (event info).symbol = symbolPad info.symbol)
    (hi : σ.orderSymbol ref = some info) (htrim : symbolStr (symbolPad info.symbol) = info.symbol) :
    ∀ e ∈ r.emitted, e.symbol = info.symbol := by
  intro e he
  cases hr with
  | unknown hn => cases he
  | known info' s hi' =>
    obtain rfl : info' = info := Option.some.inj (hi'.symm.trans hi)
    obtain rfl := List.mem_singleton.mp he
    rw [Emitted.symbol, hevent, htrim]

theorem Replaces.symbol_of_mem {m : OrderReplace} (hr : Replaces σ m r)
    (hi : σ.orderSymbol m.originalOrderRefNumber = some info)
    (htrim : symbolStr (symbolPad info.symbol) = info.symbol) : ∀ e ∈ r.emitted, e.symbol = info.symbol := by
  have hinfo : ∀ {info'}, σ.orderSymbol m.originalOrderRefNumber = some info' → info' = info := fun h =>
    Option.some.inj (h.symm.trans hi)
  intro e he
  cases hr with
  | unknown hn => cases he
  | declined info' s v hw =>
    obtain rfl := hinfo hw.known
    obtain rfl := List.mem_singleton.mp he
    rfl
  | returned info' s v a hw =>
    obtain rfl := hinfo hw.known
    obtain rfl | he := List.mem_cons.mp he
    · rfl
    obtain rfl | he := List.mem_cons.mp he
    · rw [Emitted.symbol, replaceEvent]
      split_ifs <;> exact htrim
    · exact symbol_of_mem_tradeOutputs htrim he
  | threw info' s v a what hw =>
    obtain rfl := hinfo hw.known
    obtain rfl := List.mem_singleton.mp he
    rfl
  | escaped info' s v a => cases he

/-- **What a message emits is of the symbol of its order.** -/
theorem Handles.symbol_of_mem (hr : Handles σ m r) (h : σ.Ok used) (hs : σ.symbolOf m = some symbol) :
    ∀ e ∈ r.emitted, e.symbol = symbol := by
  cases hr with
  | addOrderNoMPID hr =>
    obtain rfl := Option.some.inj hs
    exact hr.symbol_of_mem (infoOf_trimmed ..)
  | addOrderMPID hr =>
    obtain rfl := Option.some.inj hs
    exact hr.symbol_of_mem (infoOf_trimmed ..)
  | orderCancel hr =>
    obtain ⟨info, hi, rfl⟩ := Option.map_eq_some_iff.mp hs
    exact hr.symbol_of_mem (fun _ => rfl) hi (h.trimmed _ _ hi)
  | orderExecuted hr =>
    obtain ⟨info, hi, rfl⟩ := Option.map_eq_some_iff.mp hs
    exact hr.symbol_of_mem (fun _ => rfl) hi (h.trimmed _ _ hi)
  | nonPrintable hn =>
    rw [symbolOf, if_pos hn] at hs
    cases hs
  | orderExecutedWithPrice hn hr =>
    rw [symbolOf, if_neg hn] at hs
    obtain ⟨info, hi, rfl⟩ := Option.map_eq_some_iff.mp hs
    exact hr.symbol_of_mem (fun _ => rfl) hi (h.trimmed _ _ hi)
  | orderDelete hr =>
    obtain ⟨info, hi, rfl⟩ := Option.map_eq_some_iff.mp hs
    intro e he
    cases hr with
    | unknown hn => cases he
    | known info' s hw =>
      obtain rfl : info' = info := Option.some.inj (hw.known.symm.trans hi)
      obtain rfl := List.mem_singleton.mp he
      exact h.trimmed _ _ hi
  | orderReplace hr =>
    obtain ⟨info, hi, rfl⟩ := Option.map_eq_some_iff.mp hs
    exact hr.symbol_of_mem hi (h.trimmed _ _ hi)
  | other hn => cases m <;> cases hn <;> cases hs

/-! ### What becomes of the table -/

theorem orderSymbol_submitted (σ : Shard) (req : OrderRequest) (info : OrderInfo) (a : OrderBookV2.AddResult)
    (counted : Stats → Stats) (ref : OrderId) : (σ.submitted req info a counted).orderSymbol ref =
      if ref = req.id then some info else σ.orderSymbol ref := update_apply ..

theorem orderSymbol_withdrawn (σ : Shard) (ref : OrderId) (info : OrderInfo) (s : OrderBookV2) (ref' : OrderId) :
    (σ.withdrawn ref info s).orderSymbol ref' = if ref' = ref then none else σ.orderSymbol ref' := update_apply ..

theorem Adds.orderSymbol {timestampNs : UInt64} {info' : OrderInfo} (hr : Adds σ info' req timestampNs r)
    (hi : r.shard.orderSymbol ref = some info) :
    σ.orderSymbol ref = some info ∨ (req.id = ref ∧ info' = info) := by
  cases hr with
  | declined v => exact Or.inl hi
  | returned v a add =>
    rw [orderSymbol_submitted] at hi
    split_ifs at hi with he
    · exact Or.inr ⟨he.symm, Option.some.inj hi⟩
    · exact Or.inl hi
  | threw v a what =>
    have hi' : update (update σ.orderSymbol req.id (some info')) req.id none ref = some info := hi
    rw [update_idem, update_apply] at hi'
    split_ifs at hi'
    exact Or.inl hi'
  | escaped v a =>
    have hi' : update σ.orderSymbol req.id (some info') ref = some info := hi
    rw [update_apply] at hi'
    split_ifs at hi' with he
    · exact Or.inr ⟨he.symm, Option.some.inj hi'⟩
    · exact Or.inl hi'

theorem TakesShares.orderSymbol {ref' : OrderId} {shares : UInt32} {counted : Stats → Stats}
    {onRisk : OrderInfo → RiskEngine → RiskEngine} {event : OrderInfo → MDEvent}
    (hr : TakesShares σ ref' shares counted onRisk event r) : r.shard.orderSymbol = σ.orderSymbol := by
  cases hr <;> rfl

/-- Entries of a shard after a withdrawal. -/
theorem of_orderSymbol_withdrawn {ref' : OrderId} {info' : OrderInfo} {s : OrderBookV2}
    (hi : (σ.withdrawn ref' info' s).orderSymbol ref = some info) : σ.orderSymbol ref = some info ∧ ref' ≠ ref := by
  rw [orderSymbol_withdrawn] at hi
  split_ifs at hi with he
  exact ⟨hi, Ne.symm he⟩

/-- **A message takes the entry of its old number out of the table**, and may put one in under its new number. -/
theorem Handles.orderSymbol (hr : Handles σ m r) (hi : r.shard.orderSymbol ref = some info) :
    (σ.orderSymbol ref = some info ∧ m.oldRef ≠ some ref) ∨
      (m.newRef = some ref ∧ σ.symbolOf m = some info.symbol) := by
  cases hr with
  | addOrderNoMPID hr =>
    obtain hi | ⟨hid, rfl⟩ := hr.orderSymbol hi
    · exact Or.inl ⟨hi, (Option.some_ne_none ref).symm⟩
    · exact Or.inr ⟨congrArg some hid, rfl⟩
  | addOrderMPID hr =>
    obtain hi | ⟨hid, rfl⟩ := hr.orderSymbol hi
    · exact Or.inl ⟨hi, (Option.some_ne_none ref).symm⟩
    · exact Or.inr ⟨congrArg some hid, rfl⟩
  | orderCancel hr => exact Or.inl ⟨hr.orderSymbol ▸ hi, (Option.some_ne_none ref).symm⟩
  | orderExecuted hr => exact Or.inl ⟨hr.orderSymbol ▸ hi, (Option.some_ne_none ref).symm⟩
  | nonPrintable hn => exact Or.inl ⟨hi, (Option.some_ne_none ref).symm⟩
  | orderExecutedWithPrice hn hr => exact Or.inl ⟨hr.orderSymbol ▸ hi, (Option.some_ne_none ref).symm⟩
  | @orderDelete m r hr =>
    left
    cases hr with
    | unknown hn =>
      refine ⟨hi, fun he => ?_⟩
      have hi' : σ.orderSymbol ref = some info := hi
      rw [← Option.some.inj he, hn] at hi'
      cases hi'
    | known info' s hw =>
      obtain ⟨hi, hne⟩ := of_orderSymbol_withdrawn hi
      exact ⟨hi, fun he => hne (Option.some.inj he)⟩
  | @orderReplace m r hr =>
    cases hr with
    | unknown hn =>
      refine Or.inl ⟨hi, fun he => ?_⟩
      have hi' : σ.orderSymbol ref = some info := hi
      rw [← Option.some.inj he, hn] at hi'
      cases hi'
    | declined info' s v hw =>
      obtain ⟨hi, hne⟩ := of_orderSymbol_withdrawn hi
      exact Or.inl ⟨hi, fun he => hne (Option.some.inj he)⟩
    | returned info' s v a hw =>
      rw [orderSymbol_submitted] at hi
      split_ifs at hi with hid
      · obtain rfl := Option.some.inj hi
        exact Or.inr ⟨congrArg some hid.symm, by rw [symbolOf, hw.known, Option.map_some]⟩
      · obtain ⟨hi, hne⟩ := of_orderSymbol_withdrawn hi
        exact Or.inl ⟨hi, fun he => hne (Option.some.inj he)⟩
    | threw info' s v a what hw =>
      obtain ⟨hi, hne⟩ := of_orderSymbol_withdrawn hi
      exact Or.inl ⟨hi, fun he => hne (Option.some.inj he)⟩
    | escaped info' s v a hw =>
      obtain ⟨hi, hne⟩ := of_orderSymbol_withdrawn hi
      exact Or.inl ⟨hi, fun he => hne (Option.some.inj he)⟩
  | @other m hn =>
    refine Or.inl ⟨hi, ?_⟩
    cases m <;> cases hn <;> exact (Option.some_ne_none ref).symm

/-- What a message may write over is of the symbol of its order. -/
theorem Ok.onlyOf (h : σ.Ok used) (hfresh : ∀ ref ∈ m.newRef, ref ∉ used) (hs : σ.symbolOf m = some symbol) :
    OnlyOf symbol m.writes σ := by
  intro ref hr info hi
  rw [Itch.Message.writes, List.mem_append, Option.mem_toList, Option.mem_toList] at hr
  obtain hold | hnew := hr
  · cases m <;> cases hold <;> rw [symbolOf, hi] at hs <;> exact Option.some.inj hs
  · exact absurd (h.used ref info hi) (hfresh ref hnew)

/-! ### The symbols in the table -/

section Symbols

variable {P : Bytes → Prop}

/-- The order of a message is of a symbol in the table, or of the symbol that the message adds. -/
theorem of_symbolOf (hσ : ∀ ref info, σ.orderSymbol ref = some info → P info.symbol)
    (hm : ∀ symbol ∈ m.addedSymbol, P symbol) (hs : σ.symbolOf m = some symbol) : P symbol := by
  cases m with
  | addOrderNoMPID m => exact hm symbol hs
  | addOrderMPID m => exact hm symbol hs
  | orderExecutedWithPrice m =>
    rw [symbolOf] at hs
    split_ifs at hs
    obtain ⟨info, hi, rfl⟩ := Option.map_eq_some_iff.mp hs
    exact hσ _ _ hi
  | orderCancel m | orderDelete m | orderExecuted m | orderReplace m =>
    obtain ⟨info, hi, rfl⟩ := Option.map_eq_some_iff.mp hs
    exact hσ _ _ hi
  | _ => cases hs

/-- **Only symbols that messages add come into the table.** -/
theorem Handles.symbols (hr : Handles σ m r) (hm : ∀ symbol ∈ m.addedSymbol, P symbol)
    (hσ : ∀ ref info, σ.orderSymbol ref = some info → P info.symbol) :
    ∀ ref info, r.shard.orderSymbol ref = some info → P info.symbol := by
  intro ref info hi
  obtain ⟨hi, -⟩ | ⟨-, hs⟩ := hr.orderSymbol hi
  · exact hσ ref info hi
  · exact of_symbolOf hσ hm hs

end Symbols

end Shard

end MatchingEngine
