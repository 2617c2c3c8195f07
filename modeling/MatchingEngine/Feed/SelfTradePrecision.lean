import MatchingEngine.Feed.Mirror
import MatchingEngine.Feed.SelfTrade
import MatchingEngine.Feed.Sharding

/-!
# When no participant is locked out

The converse of `run_selfTrade`: an order is declined as a self-trade only if its participant has an order
that rests on the other side. The counters are those of the routing table in every run (`Tallied`), so
it is the table that can be wrong: an order that loses its last share keeps its entry, and
its participant is locked out until the order is deleted (`run_lockedOut`).

Shares are lost in three ways: to an order that has just arrived, on arrival, and by Order Cancel. In a
run in which none of them uses up an order that has an MPID, every entry with an MPID is of an order
that rests (`Present`), and the rejection is precise (`run_precise`). This leaves out the entries of
symbols whose books can have no price axis: no order rests for them, and no counter is raised.
-/

namespace MatchingEngine

open Foundation Itch Mdfeed Function OrderBookV2

/-- The messages that report an execution. -/
def Itch.Message.executes : Message → Bool
  | .orderExecuted _ | .orderExecutedWithPrice _ => true
  | _ => false

namespace Shard

/-! ### The condition -/

/-- The MPID that the table has of an order. -/
def mpidOf (σ : Shard) (ref : OrderId) : Bytes := (σ.orderSymbol ref).elim [] (·.mpid)

/-- An order passes the checks: the limits of the risk engine, and the orders that really rest on the other side. -/
def Passes (σ : Shard) (info : OrderInfo) (req : OrderRequest) : Prop :=
  (∀ risk ∈ σ.risk, risk.tooLarge req = none ∧ risk.outOfBounds req = none ∧
    ∀ p ∈ (risk.reference info.symbol (σ.books info.symbol)).toOption, risk.outOfBand req p = none) ∧
  (info.mpid ≠ [] → ∀ o ∈ (σ.book info.symbol).side req.side.opposite, σ.mpidOf o.id ≠ info.mpid)

/-- **An order spares the orders that have an MPID**: if it passes, it leaves shares of each that rests, and
of itself if it has one. -/
def Spares (σ : Shard) (info : OrderInfo) (req : OrderRequest) : Prop :=
  σ.Passes info req → (info.mpid ≠ [] → (σ.book info.symbol).covers req = false) ∧
    ∀ o ∈ (σ.book info.symbol).side req.side.opposite, σ.mpidOf o.id ≠ [] →
      o.id ∈ ((σ.book info.symbol).taken req).ids

/-- **A message spares the orders that have an MPID.** -/
def MessageSpares (σ : Shard) : Message → Prop
  | .addOrderNoMPID m => σ.Spares (infoOf m []) (limitRequest m.orderRefNumber (infoOf m []) m.price m.shares)
  | .addOrderMPID m =>
    let info := infoOf m.toAddOrderNoMPID m.attribution.str
    σ.Spares info (limitRequest m.orderRefNumber info m.price m.shares)
  | .orderCancel m => ∀ info ∈ σ.orderSymbol m.orderRefNumber, info.mpid ≠ [] →
    ∀ o ∈ (σ.book info.symbol).orders, o.id = m.orderRefNumber → m.canceledShares.toNat < o.qty
  | .orderReplace m => ∀ info ∈ σ.orderSymbol m.originalOrderRefNumber,
    -- the old order has left when the new one is submitted
    ∀ x ∈ ((σ.books info.symbol).cancel m.originalOrderRefNumber).toOption,
      (σ.withdrawn m.originalOrderRefNumber info x.2).Spares info (replaceRequest m info)
  | _ => True

/-- Conditions on the orders of a list can be decided. -/
abbrev decidableOrders (p : Order ℤ OrderId → Prop) [DecidablePred p] (os : List (Order ℤ OrderId)) :
    Decidable (∀ o ∈ os, p o) := List.decidableBAll p os

instance (σ : Shard) (info : OrderInfo) (req : OrderRequest) : Decidable (σ.Passes info req) :=
  haveI := decidableOrders (fun o => σ.mpidOf o.id ≠ info.mpid) ((σ.book info.symbol).side req.side.opposite)
  inferInstanceAs (Decidable (_ ∧ _))

instance (σ : Shard) (info : OrderInfo) (req : OrderRequest) : Decidable (σ.Spares info req) :=
  haveI := decidableOrders (fun o => σ.mpidOf o.id ≠ [] → o.id ∈ ((σ.book info.symbol).taken req).ids)
    ((σ.book info.symbol).side req.side.opposite)
  inferInstanceAs (Decidable (_ → _ ∧ _))

instance (σ : Shard) (m : Message) : Decidable (σ.MessageSpares m) := by
  cases m with
  | addOrderNoMPID m => exact inferInstanceAs (Decidable (Spares _ _ _))
  | addOrderMPID m => exact inferInstanceAs (Decidable (Spares _ _ _))
  | orderCancel m =>
    haveI (info : OrderInfo) := decidableOrders (fun o => o.id = m.orderRefNumber → m.canceledShares.toNat < o.qty)
      (σ.book info.symbol).orders
    exact inferInstanceAs (Decidable (∀ info ∈ σ.orderSymbol m.orderRefNumber, info.mpid ≠ [] → _))
  | orderReplace m =>
    exact inferInstanceAs (Decidable (∀ info ∈ σ.orderSymbol m.originalOrderRefNumber,
      ∀ x ∈ ((σ.books info.symbol).cancel m.originalOrderRefNumber).toOption,
        (σ.withdrawn m.originalOrderRefNumber info x.2).Spares info (replaceRequest m info)))
  | _ => exact inferInstanceAs (Decidable True)

variable {config : Bytes → BookConfig} {σ : Shard} {past : List Message} {used : List OrderId} {ref : OrderId}
  {info : OrderInfo} {req : OrderRequest} {m : Message} {r : Handled}

/-! ### Entries whose orders rest -/

/-- **Every order that the table has an MPID of rests**, for its symbol and on its side, where there can be a price
axis. -/
def Present (config : Bytes → BookConfig) (σ : Shard) : Prop :=
  ∀ ref info, σ.orderSymbol ref = some info → (config info.symbol).Fits → info.mpid ≠ [] →
    ∃ o ∈ (σ.book info.symbol).side info.side, o.id = ref

theorem Present.new (config : Bytes → BookConfig) (risk : Option RiskEngine.Config) :
    (new config risk).Present config := by
  intro ref info hi
  cases hi

/-- Statistics and risk do not matter. -/
theorem Present.congr {σ' : Shard} (h : σ.Present config) (hb : σ'.books = σ.books) (ht : σ'.orderSymbol = σ.orderSymbol) :
    σ'.Present config := by
  intro ref info hi
  rw [book, hb]
  exact h ref info (ht ▸ hi)

/-- An entry is erased. -/
theorem Present.eraseOrder (h : σ.Present config) (ref : OrderId) : (σ.eraseOrder ref).Present config := by
  intro ref' info hi
  have hi : update σ.orderSymbol ref none ref' = some info := hi
  rw [update_apply] at hi
  split_ifs at hi
  exact h ref' info hi

/-- **A book changes**, and keeps the orders that have an MPID. -/
theorem Present.setBook (h : σ.Present config) {symbol : Bytes} {s : OrderBookV2}
    (hkeep : ∀ info, info.symbol = symbol → info.mpid ≠ [] → ∀ o ∈ (σ.book symbol).side info.side,
      σ.orderSymbol o.id = some info → ∃ o' ∈ s.book.side info.side, o'.id = o.id) :
    (σ.setBook symbol s).Present config := by
  intro ref info hi hl hne
  have hi : σ.orderSymbol ref = some info := hi
  obtain ⟨o, ho, rfl⟩ := h ref info hi hl hne
  rw [book_setBook]
  split_ifs with hs
  · rw [hs] at ho
    exact hkeep info hs hne o ho hi
  · exact ⟨o, ho, rfl⟩

/-- **An entry is written** for an order that rests. -/
theorem Present.setOrder (h : σ.Present config) (hnew : (config info.symbol).Fits → info.mpid ≠ [] →
    ∃ o ∈ (σ.book info.symbol).side info.side, o.id = ref) : (σ.setOrder ref info).Present config := by
  intro ref' info' hi hl hne
  have hi : update σ.orderSymbol ref (some info) ref' = some info' := hi
  rw [update_apply] at hi
  split_ifs at hi with he
  · obtain rfl := Option.some.inj hi
    rw [he]
    exact hnew hl hne
  · exact h ref' info' hi hl hne

/-- The order of an entry, and the MPID of it. -/
theorem mpidOf_eq (hi : σ.orderSymbol ref = some info) : σ.mpidOf ref = info.mpid := by
  rw [mpidOf, hi]
  rfl

/-- **An order is withdrawn**, and its entry is erased. -/
theorem Present.withdrawn (h : σ.Present config) {s : OrderBookV2} (hw : Withdraws σ ref info s) :
    (σ.withdrawn ref info s).Present config := by
  intro ref' info' hi hl hne
  obtain ⟨hi, href⟩ := of_orderSymbol_withdrawn hi
  obtain ⟨o, ho, rfl⟩ := h ref' info' hi hl hne
  refine ⟨o, ?_, rfl⟩
  show o ∈ ((σ.setBook info.symbol s).book info'.symbol).side info'.side
  rw [book_setBook]
  split_ifs with hs
  · rw [hw.book, mem_side_cancel, ← hs]
    exact ⟨ho, href.symm⟩
  · exact ho

/-- **An order takes from a book** and spares the orders that have an MPID. -/
theorem Ok.kept_taken (h : σ.Ok used) {symbol : Bytes} {req : OrderRequest}
    (hspare : ∀ o ∈ (σ.book symbol).side req.side.opposite, σ.mpidOf o.id ≠ [] → o.id ∈ ((σ.book symbol).taken req).ids)
    (hne : info.mpid ≠ []) {o : Order ℤ OrderId} (ho : o ∈ (σ.book symbol).side info.side)
    (hi : σ.orderSymbol o.id = some info) : ∃ o' ∈ ((σ.book symbol).taken req).side info.side, o'.id = o.id := by
  by_cases hs : info.side = req.side.opposite
  · rw [hs] at ho
    have hmpid : σ.mpidOf o.id ≠ [] := by
      rw [mpidOf_eq hi]
      exact hne
    obtain ⟨o', ho', hid⟩ := List.mem_map.mp (hspare o ho hmpid)
    obtain ⟨side, ho'⟩ := mem_orders_iff.mp ho'
    -- it is still on its side, since the table has one side for it
    obtain ⟨o'', ho'', hid', -⟩ := mem_side_taken ho'
    obtain ⟨info', hi', -, rfl⟩ := h.routed symbol side o'' ho''
    rw [hid', hid, hi] at hi'
    rw [Option.some.inj hi']
    exact ⟨o', ho', hid⟩
  · refine ⟨o, ?_, rfl⟩
    rw [Book.taken, side_withSide_eq, if_neg hs]
    exact ho

/-- What an order takes from a book keeps the entries right. -/
theorem Present.taken (h : σ.Present config) (hok : σ.Ok used) {symbol : Bytes} {s : OrderBookV2}
    (hspare : ∀ o ∈ (σ.book symbol).side req.side.opposite, σ.mpidOf o.id ≠ [] → o.id ∈ ((σ.book symbol).taken req).ids)
    (hsub : ∀ side, ∀ o ∈ ((σ.book symbol).taken req).side side, o ∈ s.book.side side) :
    (σ.setBook symbol s).Present config := by
  refine h.setBook fun info _ hne o ho hi => ?_
  obtain ⟨o', ho', hid⟩ := hok.kept_taken hspare hne ho hi
  exact ⟨o', hsub _ o' ho', hid⟩

/-- An order that is not covered leaves shares of itself. -/
theorem left_pos_of_covers {symbol : Bytes} {req : OrderRequest} (h : (σ.book symbol).covers req = false) :
    0 < ((σ.book symbol).take req).left := by
  refine Nat.pos_of_ne_zero fun hz => ?_
  have hcovers : (σ.book symbol).covers req = true := (bookOf_sorted _ _).left_eq_zero_iff.mp hz
  rw [h] at hcovers
  cases hcovers

/-- **A book takes an order** that spares the others, and itself. -/
theorem Present.submitted (h : σ.Present config) (hok : σ.Ok used) (hside : req.side = info.side) {a : AddResult}
    (ha : LimitAdded (σ.books info.symbol) req a) (hthrown : a.thrown = none)
    (hown : info.mpid ≠ [] → (σ.book info.symbol).covers req = false)
    (hspare : ∀ o ∈ (σ.book info.symbol).side req.side.opposite, σ.mpidOf o.id ≠ [] →
      o.id ∈ ((σ.book info.symbol).taken req).ids) (counted : Stats → Stats) :
    (σ.submitted req info a counted).Present config := by
  have hbook : a.book.book = (σ.book info.symbol).afterLimit req := ha.returned hthrown
  have hset : (σ.setBook info.symbol a.book).Present config := by
    refine h.taken hok hspare fun side o ho => ?_
    rw [hbook, Book.afterLimit]
    split_ifs
    · exact mem_side_join.mpr (Or.inl ho)
    · exact ho
  have hset' : ((σ.setBook info.symbol a.book).setOrder req.id info).Present config := by
    refine hset.setOrder fun _ hne => ?_
    -- shares of it are left, so it rests
    rw [book_setBook, if_pos rfl, hbook, Book.afterLimit, if_pos (left_pos_of_covers (hown hne))]
    exact ⟨_, mem_side_join.mpr (Or.inr ⟨hside.symm, rfl⟩), rfl⟩
  exact hset'.congr rfl rfl

/-- **A book throws an order back** that spares the others. -/
theorem Present.threw (h : σ.Present config) (hok : σ.Ok used) {symbol : Bytes} {a : AddResult}
    (ha : LimitAdded (σ.books symbol) req a) {e : Exn} (hthrown : a.thrown = some e)
    (hspare : ∀ o ∈ (σ.book symbol).side req.side.opposite, σ.mpidOf o.id ≠ [] →
      o.id ∈ ((σ.book symbol).taken req).ids) : (σ.afterAdd symbol a).Present config := by
  have hbook : a.book.book = (σ.book symbol).taken req := (ha.threw e hthrown).2.2
  have hset : (σ.setBook symbol a.book).Present config := h.taken hok hspare fun side o ho => by rwa [hbook]
  exact hset.congr rfl rfl

end Shard

namespace RiskEngine

/-- **A key has one symbol, one MPID and one side.** -/
theorem eq_of_key_eq {symbol symbol' mpid mpid' : Bytes} {side side' : Side} (h : Plain symbol) (h' : Plain symbol')
    (he : key symbol mpid side = key symbol' mpid' side') : symbol = symbol' ∧ mpid = mpid' ∧ side = side' := by
  obtain rfl := symbol_eq_of_key_eq h h' he
  have htail := (List.cons.inj (List.append_cancel_left he)).2
  -- two bytes come after the MPID
  obtain ⟨hmpid, hside⟩ := List.append_inj' htail rfl
  refine ⟨rfl, hmpid, ?_⟩
  cases side <;> cases side' <;> simp at hside ⊢

/-- **An order is declined as a self-trade** if it has an MPID that is counted on the other side. -/
theorem counted_of_check {risk : RiskEngine} {req : OrderRequest} {symbol mpid : Bytes} {book : OrderBookV2}
    {v : Verdict} (h : risk.check req symbol mpid book = .ok v) (hreason : v.reason = .selfTrade) :
    mpid ≠ [] ∧ 0 < risk.restingCount (key symbol mpid req.side.opposite) := by
  obtain (hv | hv | ⟨p, hv⟩) | ⟨-, -, -, hv⟩ := check_cases h
  · rw [(of_tooLarge hv).2] at hreason
    cases hreason
  · rw [(of_outOfBounds hv).2] at hreason
    cases hreason
  · rw [(of_outOfBand hv).2] at hreason
    cases hreason
  · cases h₄ : risk.selfTrade req symbol mpid with
    | some v₄ => exact (of_selfTrade h₄).2
    | none =>
      rw [h₄, Option.getD_none] at hv
      rw [← hv] at hreason
      cases hreason

end RiskEngine

namespace Shard

variable {config : Bytes → BookConfig} {σ : Shard} {past : List Message} {ref : OrderId} {info : OrderInfo}
  {req : OrderRequest} {m : Message} {r : Handled}

/-! ### Counters that count nothing -/

/-- **No order is counted** for a symbol whose books can have no price axis. -/
def Idle (config : Bytes → BookConfig) (σ : Shard) : Prop :=
  ∀ risk ∈ σ.risk, ∀ symbol mpid side, Plain symbol → ¬ (config symbol).Fits →
    risk.restingCount (RiskEngine.key symbol mpid side) = 0

theorem Idle.new (config : Bytes → BookConfig) (cfg : RiskEngine.Config) : (new config (some cfg)).Idle config := by
  intro risk hrisk symbol mpid side _ _
  rw [← Option.some.inj hrisk]
  rfl

/-- Nothing is counted in addition. -/
theorem Idle.congr {σ' : Shard} (h : σ.Idle config) {f : RiskEngine → RiskEngine} (hr : σ'.risk = σ.risk.map f)
    (hf : ∀ risk k, (f risk).restingCount k ≤ risk.restingCount k) : σ'.Idle config := by
  intro risk' hrisk' symbol mpid side hp hl
  rw [Option.mem_def, hr, Option.map_eq_some_iff] at hrisk'
  obtain ⟨risk, hrisk, rfl⟩ := hrisk'
  exact Nat.eq_zero_of_le_zero ((hf risk _).trans_eq (h risk hrisk symbol mpid side hp hl))

theorem Idle.same {σ' : Shard} (h : σ.Idle config) (hr : σ'.risk = σ.risk) : σ'.Idle config := by
  refine h.congr (f := id) ?_ fun _ _ => le_rfl
  rw [hr, Option.map_id]
  rfl

theorem Idle.withdrawn (h : σ.Idle config) (ref : OrderId) (info : OrderInfo) (s : OrderBookV2) :
    (σ.withdrawn ref info s).Idle config := by
  refine h.congr (f := fun risk => risk.noteRemoved info.symbol info.mpid info.side) rfl fun risk k => ?_
  rw [restingCount_noteRemoved]
  exact Nat.sub_le ..

/-- **An order is counted** for another symbol. -/
theorem Idle.submitted (h : σ.Idle config) (hplain : Plain info.symbol)
    (hfits : info.mpid ≠ [] → (config info.symbol).Fits) (req : OrderRequest) (a : AddResult)
    (counted : Stats → Stats) : (σ.submitted req info a counted).Idle config := by
  have hnoted : (σ.withRisk fun risk => risk.noteResting info.symbol info.mpid info.side).Idle config := by
    intro risk' hrisk' symbol mpid side hp hl
    obtain ⟨risk, hrisk, rfl⟩ := Option.map_eq_some_iff.mp hrisk'
    rw [restingCount_noteResting, h risk hrisk symbol mpid side hp hl, if_neg]
    intro hc
    obtain ⟨hne, hkey⟩ := of_counterOf hc
    rw [← RiskEngine.symbol_eq_of_key_eq hplain hp hkey] at hl
    exact hl (hfits hne)
  exact hnoted.congr (f := noteTrades info.symbol a.trades) rfl fun risk k => by rw [restingCount_noteTrades]

/-! ### What a counter tells -/

/-- **The self-trade check is precise**: it declines only an order with an MPID under which an order rests on the
other side. -/
def Precise (σ : Shard) (past : List Message) : Prop :=
  ∀ risk ∈ σ.risk, ∀ req symbol mpid book v, Plain symbol → risk.check req symbol mpid book = .ok v →
    v.reason = .selfTrade → mpid ≠ [] ∧ ∃ o ∈ (σ.book symbol).side req.side.opposite, mpids past o.id = mpid

/-- **The counters, the table and the books**, after the messages `past`. -/
structure Exact (config : Bytes → BookConfig) (σ : Shard) (past : List Message) : Prop where
  /-- The table knows the orders that rest. -/
  ok : σ.Ok (newRefs past)
  /-- The counters count its entries. -/
  watched : σ.Watched config past
  /-- Where there can be no price axis they count nothing. -/
  idle : σ.Idle config
  /-- The entries with an MPID are of orders that rest. -/
  present : σ.Present config
  /-- The symbols are plain. -/
  plain : ∀ symbol ∈ past.filterMap Message.addedSymbol, Plain symbol

theorem Exact.new (config : Bytes → BookConfig) (cfg : RiskEngine.Config) : (new config (some cfg)).Exact config [] where
  ok := .new config (some cfg)
  watched := .new config cfg
  idle := .new config cfg
  present := .new config (some cfg)
  plain symbol hs := by cases hs

theorem Exact.withdrawn (h : σ.Exact config past) (hnd : (newRefs past).Nodup) {s : OrderBookV2}
    (hw : Withdraws σ ref info s) : (σ.withdrawn ref info s).Exact config past where
  ok := h.ok.withdrawn hw
  watched := h.watched.withdrawn h.ok hnd hw
  idle := h.idle.withdrawn ref info s
  present := h.present.withdrawn hw
  plain := h.plain

/-- The entries of the table are of plain symbols. -/
theorem Exact.plain_entry (h : σ.Exact config past) (hi : σ.orderSymbol ref = some info) : Plain info.symbol :=
  h.plain _ (h.watched.known ref info hi)

/-- **A counter that is not zero** has an order that rests. -/
theorem Exact.precise (h : σ.Exact config past) : σ.Precise past := by
  intro risk hrisk req symbol mpid book v hplain hcheck hreason
  obtain ⟨hne, hpos⟩ := RiskEngine.counted_of_check hcheck hreason
  refine ⟨hne, ?_⟩
  obtain ⟨risk', hrisk', heq⟩ := h.watched.tallied.counted
  obtain rfl := Option.some.inj (hrisk.symm.trans hrisk')
  have hfits : (config symbol).Fits := by
    by_contra hl
    have := h.idle risk hrisk symbol mpid req.side.opposite hplain hl
    omega
  have hkept : Kept config past (RiskEngine.key symbol mpid req.side.opposite) := by
    intro symbol' hs mpid' side hkey
    rwa [RiskEngine.symbol_eq_of_key_eq (h.plain symbol' hs) hplain hkey]
  rw [heq _ hkept] at hpos
  obtain ⟨ref, -, info, hi, hcounter⟩ := exists_of_tally_pos hpos
  obtain ⟨hmpid, hkey⟩ := of_counterOf hcounter
  obtain ⟨hsymbol, hmpid', hside⟩ := RiskEngine.eq_of_key_eq (h.plain_entry hi) hplain hkey
  obtain ⟨o, ho, rfl⟩ := h.present ref info hi (hsymbol ▸ hfits) hmpid
  rw [hsymbol, hside] at ho
  exact ⟨o, ho, by rw [← h.watched.tallied.recorded _ _ hi, hmpid']⟩

/-- **An order that the risk engine accepts** passes the checks. -/
theorem Exact.passes (h : σ.Exact config past) {v : RiskEngine.Verdict} (hv : σ.verdict req info = .ok v)
    (ha : v.accepted = true) : σ.Passes info req := by
  refine ⟨fun risk hrisk => ?_, fun hne o ho hsame => hne ?_⟩
  · rw [Option.mem_def] at hrisk
    rw [verdict, hrisk] at hv
    obtain ⟨hsize, hbounds, ⟨p, hp, hband⟩, -⟩ := RiskEngine.passed_of_accepted hv ha
    refine ⟨hsize, hbounds, fun p' hp' => ?_⟩
    rw [hp] at hp'
    rw [← Option.some.inj hp']
    exact hband
  · obtain ⟨info', hi, -⟩ := h.ok.routed _ _ o ho
    have hkept := h.watched.kept_key (unmixed_of_plain config h.plain) h.ok ho info.mpid req.side.opposite
    refine h.watched.tallied.apart h.ok hkept hv ha ho ?_
    rw [← h.watched.tallied.recorded _ _ hi, ← mpidOf_eq hi, hsame]

/-! ### The messages -/

/-- An Add Order message. -/
theorem Exact.present_adds (h : σ.Exact config past) (hside : req.side = info.side) (hspares : σ.Spares info req)
    {timestampNs : UInt64} (hr : Adds σ info req timestampNs r) : r.shard.Present config := by
  cases hr with
  | declined v => exact h.present.congr rfl rfl
  | returned v a add hv hacc _ ha hthrown =>
    obtain ⟨hown, hspare⟩ := hspares (h.passes hv hacc)
    exact h.present.submitted h.ok hside ha hthrown hown hspare _
  | threw v a what hv hacc _ ha hthrown =>
    obtain ⟨-, hspare⟩ := hspares (h.passes hv hacc)
    have hset := (h.present.threw h.ok ha hthrown hspare).eraseOrder req.id
    refine hset.congr rfl ?_
    -- the entry was only there during the call
    show update (update σ.orderSymbol req.id (some info)) req.id none = update σ.orderSymbol req.id none
    rw [update_idem]
  | escaped v a hv hacc _ ha hthrown =>
    obtain ⟨-, hspare⟩ := hspares (h.passes hv hacc)
    have hset : ((σ.afterAdd info.symbol a).setOrder req.id info).Present config :=
      (h.present.threw h.ok ha hthrown hspare).setOrder fun hfits _ =>
        absurd ((h.watched.fits_iff _).mpr hfits) (ha.not_windowFits hthrown)
    exact hset.congr rfl rfl

/-- Order Cancel. -/
theorem Present.takesShares (h : σ.Present config) {shares : UInt32} {counted : Stats → Stats}
    {onRisk : OrderInfo → RiskEngine → RiskEngine} {event : OrderInfo → MDEvent}
    (hspares : ∀ info ∈ σ.orderSymbol ref, info.mpid ≠ [] →
      ∀ o ∈ (σ.book info.symbol).orders, o.id = ref → shares.toNat < o.qty)
    (hr : TakesShares σ ref shares counted onRisk event r) : r.shard.Present config := by
  cases hr with
  | unknown => exact h.congr rfl rfl
  | known info s hi _ hb =>
    have hset : (σ.setBook info.symbol s).Present config := by
      refine h.setBook fun info' _ hne o ho hi' => ?_
      rw [hb]
      by_cases href : o.id = ref
      · -- it keeps some of its shares
        subst href
        obtain rfl := Option.some.inj (hi.symm.trans hi')
        have hlt := hspares info hi hne o (mem_side_orders ho) rfl
        refine ⟨{ o with qty := o.qty - shares.toNat }, ?_, rfl⟩
        rw [side_reduce, mem_reduceBy, UInt32.toNat_toUInt64]
        exact Or.inr ⟨o, ho, rfl, hlt, rfl⟩
      · refine ⟨o, ?_, rfl⟩
        rw [side_reduce, mem_reduceBy]
        exact Or.inl ⟨href, ho⟩
    exact hset.congr rfl rfl

/-- The old order of an Order Replace message has left, and the new one spares the others. -/
theorem spares_withdrawn {m : OrderReplace} (hspares : σ.MessageSpares (.orderReplace m)) {s : OrderBookV2}
    (hw : Withdraws σ m.originalOrderRefNumber info s) :
    (σ.withdrawn m.originalOrderRefNumber info s).Spares info (replaceRequest m info) := by
  obtain ⟨found, hrun⟩ := hw.cancelled
  refine hspares info hw.known (found, s) ?_
  rw [hrun]
  rfl

/-- Order Replace: the old order leaves, and the new one is submitted. -/
theorem Exact.present_replaces {m : OrderReplace} (h : σ.Exact config past) (hnd : (newRefs past).Nodup)
    (hspares : σ.MessageSpares (.orderReplace m)) (hr : Replaces σ m r) : r.shard.Present config := by
  cases hr with
  | unknown => exact h.present.congr rfl rfl
  | declined info s v hw => exact (h.present.withdrawn hw).congr rfl rfl
  | returned info s v a hw hv hacc _ ha hthrown =>
    have hleft := h.withdrawn hnd hw
    obtain ⟨hown, hspare⟩ := spares_withdrawn hspares hw (hleft.passes hv hacc)
    exact hleft.present.submitted hleft.ok rfl (added_withdrawn ha σ _ info) hthrown hown hspare _
  | threw info s v a what hw hv hacc _ ha hthrown =>
    have hleft := h.withdrawn hnd hw
    obtain ⟨-, hspare⟩ := spares_withdrawn hspares hw (hleft.passes hv hacc)
    exact (hleft.present.threw hleft.ok (added_withdrawn ha σ _ info) hthrown hspare).congr rfl rfl
  | escaped info s v a hw hv hacc _ ha hthrown =>
    have hleft := h.withdrawn hnd hw
    obtain ⟨-, hspare⟩ := spares_withdrawn hspares hw (hleft.passes hv hacc)
    exact hleft.present.threw hleft.ok (added_withdrawn ha σ _ info) hthrown hspare

/-- **A message that spares the orders with an MPID** keeps the entries right. -/
theorem Handles.present (hr : Handles σ m r) (h : σ.Exact config past) (hnd : (newRefs past).Nodup)
    (hexec : m.executes = false) (hspares : σ.MessageSpares m) : r.shard.Present config := by
  cases hr with
  | addOrderNoMPID hr => exact h.present_adds rfl hspares hr
  | addOrderMPID hr => exact h.present_adds rfl hspares hr
  | orderCancel hr => exact h.present.takesShares hspares hr
  | orderExecuted => cases hexec
  | nonPrintable => cases hexec
  | orderExecutedWithPrice => cases hexec
  | orderDelete hr =>
    cases hr with
    | unknown => exact h.present.congr rfl rfl
    | known info s hw => exact (h.present.withdrawn hw).congr rfl rfl
  | orderReplace hr => exact h.present_replaces hnd hspares hr
  | other => exact h.present.congr rfl rfl

/-! ### The orders that are counted -/

/-- An order with an MPID that spares itself has shares, so a book that takes it has a price axis. -/
theorem Exact.fits_of_spares (h : σ.Exact config past) (hspares : σ.Spares info req) {v : RiskEngine.Verdict}
    (hv : σ.verdict req info = .ok v) (hacc : v.accepted = true) {a : AddResult}
    (ha : LimitAdded (σ.books info.symbol) req a) (hthrown : a.thrown = none) (hne : info.mpid ≠ []) :
    (config info.symbol).Fits :=
  (h.watched.fits_iff _).mp (ha.windowFits hthrown (left_pos_of_covers ((hspares (h.passes hv hacc)).1 hne)))

/-- An Add Order message. -/
theorem Exact.idle_adds (h : σ.Exact config past) (hplain : Plain info.symbol) (hspares : σ.Spares info req)
    {timestampNs : UInt64} (hr : Adds σ info req timestampNs r) : r.shard.Idle config := by
  cases hr with
  | declined v => exact h.idle.same rfl
  | returned v a add hv hacc _ ha hthrown =>
    exact h.idle.submitted hplain (h.fits_of_spares hspares hv hacc ha hthrown) req a _
  | threw v a what => exact h.idle.same rfl
  | escaped v a => exact h.idle.same rfl

/-- Order Replace: the new order is of the symbol of the old one. -/
theorem Exact.idle_replaces {m : OrderReplace} (h : σ.Exact config past) (hnd : (newRefs past).Nodup)
    (hspares : σ.MessageSpares (.orderReplace m)) (hr : Replaces σ m r) : r.shard.Idle config := by
  cases hr with
  | unknown => exact h.idle.same rfl
  | declined info s v => exact (h.idle.withdrawn m.originalOrderRefNumber info s).same rfl
  | returned info s v a hw hv hacc _ ha hthrown =>
    have hleft := h.withdrawn hnd hw
    refine hleft.idle.submitted (h.plain_entry hw.known) (fun hne => ?_) _ a _
    exact hleft.fits_of_spares (spares_withdrawn hspares hw) hv hacc (added_withdrawn ha σ _ info) hthrown hne
  | threw info s v a what => exact (h.idle.withdrawn m.originalOrderRefNumber info s).same rfl
  | escaped info s v a => exact (h.idle.withdrawn m.originalOrderRefNumber info s).same rfl

/-- **A message that spares the orders with an MPID** lets none be counted where there can be no price axis. -/
theorem Handles.idle (hr : Handles σ m r) (h : σ.Exact config past) (hnd : (newRefs past).Nodup)
    (hplain : m.PlainSymbol) (hexec : m.executes = false) (hspares : σ.MessageSpares m) : r.shard.Idle config := by
  cases hr with
  | addOrderNoMPID hr => exact h.idle_adds (hplain _ rfl) hspares hr
  | addOrderMPID hr => exact h.idle_adds (hplain _ rfl) hspares hr
  | orderCancel hr =>
    cases hr with
    | unknown => exact h.idle.same rfl
    | known info s => exact h.idle.congr rfl fun _ _ => le_rfl
  | orderExecuted => cases hexec
  | nonPrintable => cases hexec
  | orderExecutedWithPrice => cases hexec
  | @orderDelete m _ hr =>
    cases hr with
    | unknown => exact h.idle.same rfl
    | known info s => exact (h.idle.withdrawn m.orderRefNumber info s).same rfl
  | orderReplace hr => exact h.idle_replaces hnd hspares hr
  | other => exact h.idle.same rfl

/-! ### Runs -/

/-- **Every message that spares the orders with an MPID keeps this.** -/
theorem Handles.exact (hr : Handles σ m r) (h : σ.Exact config past) (hnd : (newRefs (past ++ [m])).Nodup)
    (hplain : m.PlainSymbol) (hexec : m.executes = false) (hspares : σ.MessageSpares m) :
    r.shard.Exact config (past ++ [m]) := by
  have hfresh := fresh_of_nodup hnd
  have hpast := nodup_of_snoc hnd
  have hrefs : newRefs (past ++ [m]) = newRefs past ++ m.newRef.toList := by
    rw [newRefs_append]
    cases hm : m.newRef <;> simp [newRefs, hm]
  refine ⟨?_, hr.watched h.watched h.ok hnd, hr.idle h hpast hplain hexec hspares, hr.present h hpast hexec hspares,
    fun symbol hs => ?_⟩
  · rw [hrefs]
    exact hr.ok h.ok hfresh
  · rw [List.filterMap_append, List.mem_append] at hs
    obtain hs | hs := hs
    · exact h.plain symbol hs
    · obtain ⟨m', hm', ha⟩ := List.mem_filterMap.mp hs
      rw [List.mem_singleton.mp hm'] at ha
      exact hplain symbol ha

/-- **In a run that spares the orders with an MPID, the self-trade check is precise** in every state, so a
participant whose orders have all been filled or cancelled is not locked out. Without Order Executed and Order
Executed With Price, which the risk engine is documented not to follow. -/
theorem run_precise (config : Bytes → BookConfig) (cfg : RiskEngine.Config) {past : List Message}
    (hnd : (newRefs past).Nodup) (hplain : ∀ m ∈ past, m.PlainSymbol) (hexec : ∀ m ∈ past, m.executes = false)
    (hspares : (new config (some cfg)).Along MessageSpares past) :
    ∃ σ es, (new config (some cfg)).run past = .ok (σ, es) ∧ σ.risk.isSome ∧ σ.Precise past := by
  obtain ⟨σ, es, hrun, -, hexact⟩ := run_induction_along
    (J := fun past σ _ => (∀ m ∈ past, m.PlainSymbol) → (∀ m ∈ past, m.executes = false) →
      σ.Exact config past)
    config (some cfg) (fun _ _ => .new config cfg) (by
      rintro past m σ es r hnd - hexact hspares hh hplain hexec
      have h := hexact (fun x hx => hplain x (by simp [hx])) (fun x hx => hexec x (by simp [hx]))
      exact hh.exact h hnd (hplain m (by simp)) (hexec m (by simp)) hspares) past hnd hspares
  have h := hexact hplain hexec
  obtain ⟨risk, hrisk, -⟩ := h.watched.tallied.counted
  refine ⟨σ, es, hrun, ?_, h.precise⟩
  rw [hrisk]
  rfl

/-- Two orders, the second of which is filled in part, then replaced and reduced. -/
def sparing : List Message :=
  [addAB 1 83 5 100 77, addAB 2 66 3 100 32, replaceBy 1 3 4 101, addAB 4 66 9 95 78,
    .orderCancel { h := noHeader, orderRefNumber := 4, canceledShares := 8 }]

theorem run_precise_sparing :
    ∃ σ es, (new smallBooks (some noBand)).run sparing = .ok (σ, es) ∧ σ.risk.isSome ∧ σ.Precise sparing :=
  run_precise smallBooks noBand (by decide) (by decide) (by decide) (by decide)

/-- A buy order that trades all its shares on arrival. -/
def filledOnArrival : List Message := [addAB 1 83 5 100 77, addAB 2 66 5 100 78]

/-- **A participant is locked out**: its only order has been filled, nothing rests, and still its sell order is
declined. -/
theorem run_lockedOut :
    (newRefs filledOnArrival).Nodup ∧ (∀ m ∈ filledOnArrival, m.PlainSymbol ∧ m.executes = false) ∧
      ∃ σ es, (new smallBooks (some noBand)).run filledOnArrival = .ok (σ, es) ∧
        (σ.book [65, 66]).orders = [] ∧ ¬ σ.Precise filledOnArrival := by
  have hrun : ((new smallBooks (some noBand)).run filledOnArrival).toOption.any (fun x =>
      (x.1.book [65, 66]).orders = [] ∧ x.1.risk.any fun risk =>
        (risk.check (limitRequest 3 ⟨[65, 66], .sell, [78]⟩ 100 1) [65, 66] [78] (x.1.books [65, 66])).toOption.any
          (·.reason = .selfTrade)) = true := by decide
  obtain ⟨⟨σ, es⟩, hrun, hx⟩ := exists_of_toOption_any hrun
  obtain ⟨hbook, hx⟩ := of_decide_eq_true hx
  obtain ⟨risk, hrisk, hx⟩ := (Option.any_eq_true _ _).mp hx
  obtain ⟨v, hcheck, hreason⟩ := exists_of_toOption_any hx
  refine ⟨by decide, by decide, σ, es, hrun, hbook, fun hprecise => ?_⟩
  obtain ⟨-, o, ho, -⟩ := hprecise risk hrisk _ [65, 66] [78] _ v (by decide) hcheck (of_decide_eq_true hreason)
  have ho : o ∈ (σ.book [65, 66]).orders := mem_side_orders ho
  rw [hbook] at ho
  cases ho

end Shard

end MatchingEngine
