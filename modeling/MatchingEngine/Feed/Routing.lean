import MatchingEngine.Core.LimitOrders
import MatchingEngine.Feed.Sequencer

/-!
# What messages do

The books of a sequencer are sound, and its table knows every resting order (`Shard.Ok`).
Each handler has one theorem that says all that it can do, `addOrder_cases` and its like;
`Ok.onMessage` is that every message keeps `Shard.Ok`, and `run_induction` carries an
invariant of single messages to whole runs from a new sequencer.

Reference numbers are taken to be fresh: those that Add Order and Order Replace introduce
were not introduced before.
-/

namespace MatchingEngine

open Foundation Itch Mdfeed Function OrderBookV2

/-! ### Reference numbers -/

/-- The reference number that a message introduces. -/
def Itch.Message.newRef : Message → Option OrderId
  | .addOrderNoMPID m => some m.orderRefNumber
  | .addOrderMPID m => some m.orderRefNumber
  | .orderReplace m => some m.newOrderRefNumber
  | _ => none

/-- The reference numbers that messages introduce. -/
def newRefs (ms : List Message) : List OrderId := ms.filterMap Message.newRef

@[simp] theorem newRefs_append (ms ms' : List Message) : newRefs (ms ++ ms') = newRefs ms ++ newRefs ms' :=
  List.filterMap_append

/-- The symbol of the order that a message adds. -/
def Itch.Message.addedSymbol : Message → Option Bytes
  | .addOrderNoMPID m => some m.stock.str
  | .addOrderMPID m => some m.stock.str
  | _ => none

/-- A message that comes after others introduces a new number, if it introduces one. -/
theorem fresh_of_nodup {ms : List Message} {m : Message} (h : (newRefs (ms ++ [m])).Nodup) :
    ∀ ref ∈ m.newRef, ref ∉ newRefs ms := by
  intro ref hr hm
  rw [newRefs_append, List.nodup_append] at h
  exact h.2.2 ref hm ref (List.mem_filterMap.mpr ⟨m, by simp, hr⟩) rfl

namespace Shard

variable {σ : Shard} {used : List OrderId} {ref : OrderId} {info : OrderInfo} {req : OrderRequest}

/-! ### The invariant -/

/-- The orders that rest for a symbol. -/
def book (σ : Shard) (symbol : Bytes) : Book := (σ.books symbol).book

/-- **The state between two messages.** -/
structure Ok (σ : Shard) (used : List OrderId) : Prop where
  /-- Every book is sound. -/
  sound : ∀ symbol, Sound (σ.books symbol)
  /-- The table knows every resting order, with its symbol and its side. -/
  routed : ∀ symbol side, ∀ o ∈ (σ.book symbol).side side,
    ∃ info, σ.orderSymbol o.id = some info ∧ info.symbol = symbol ∧ info.side = side
  /-- The numbers in the table have been introduced. -/
  used : ∀ ref info, σ.orderSymbol ref = some info → ref ∈ used
  /-- The symbols in the table are what is left of padded ones. -/
  trimmed : ∀ ref info, σ.orderSymbol ref = some info → symbolStr (symbolPad info.symbol) = info.symbol

theorem Ok.new (config : Bytes → BookConfig) (risk : Option RiskEngine.Config) : (new config risk).Ok [] where
  sound symbol := Sound.new _ ⟨Int64.le_toInt _, Int64.toInt_lt _⟩
  routed symbol side o ho := by cases side <;> cases ho
  used ref info h := by cases h
  trimmed ref info h := by cases h

/-- Statistics and risk do not matter. -/
theorem Ok.congr {σ' : Shard} (h : σ.Ok used) (hb : σ'.books = σ.books) (ht : σ'.orderSymbol = σ.orderSymbol) :
    σ'.Ok used where
  sound symbol := by rw [hb]; exact h.sound symbol
  routed symbol side o ho := by
    rw [ht]
    unfold book at ho
    rw [hb] at ho
    exact h.routed symbol side o ho
  used ref info hr := h.used ref info (ht ▸ hr)
  trimmed ref info hr := h.trimmed ref info (ht ▸ hr)

theorem Ok.mono {used' : List OrderId} (h : σ.Ok used) (hsub : used ⊆ used') : σ.Ok used' :=
  { h with used := fun ref info hr => hsub (h.used ref info hr) }

/-- A number that has not been introduced does not rest. -/
theorem Ok.not_mem_ids (h : σ.Ok used) (href : ref ∉ used) (symbol : Bytes) : ref ∉ (σ.book symbol).ids := by
  intro hm
  obtain ⟨o, ho, rfl⟩ := List.mem_map.mp hm
  obtain ⟨side, ho⟩ := mem_orders_iff.mp ho
  obtain ⟨info, hi, -⟩ := h.routed symbol side o ho
  exact href (h.used _ _ hi)

/-- An order rests in the book of its symbol only. -/
theorem Ok.symbol_eq (h : σ.Ok used) (hi : σ.orderSymbol ref = some info) {symbol : Bytes}
    (hm : ref ∈ (σ.book symbol).ids) : symbol = info.symbol := by
  obtain ⟨o, ho, rfl⟩ := List.mem_map.mp hm
  obtain ⟨side, ho⟩ := mem_orders_iff.mp ho
  obtain ⟨info', hi', hs, -⟩ := h.routed symbol side o ho
  rw [← hs, Option.some.inj (hi'.symm.trans hi)]

@[simp] theorem book_setBook (σ : Shard) (symbol symbol' : Bytes) (s : OrderBookV2) :
    (σ.setBook symbol s).book symbol' = if symbol' = symbol then s.book else σ.book symbol' := by
  by_cases h : symbol' = symbol
  · subst h
    simp [book, setBook]
  · simp [book, setBook, h]

@[simp] theorem book_afterAdd (σ : Shard) (symbol symbol' : Bytes) (a : AddResult) :
    (σ.afterAdd symbol a).book symbol' = if symbol' = symbol then a.book.book else σ.book symbol' :=
  book_setBook σ symbol symbol' a.book

/-- **A book changes**: its orders were there before, or the table knows them. -/
theorem Ok.setBook (h : σ.Ok used) (symbol : Bytes) {s : OrderBookV2} (hs : Sound s)
    (hmem : ∀ side, ∀ o ∈ s.book.side side, (σ.book symbol).HasAt side o ∨
      ∃ info, σ.orderSymbol o.id = some info ∧ info.symbol = symbol ∧ info.side = side) :
    (σ.setBook symbol s).Ok used where
  sound symbol' := by
    by_cases he : symbol' = symbol
    · subst he
      simpa [Shard.setBook] using hs
    · simpa [Shard.setBook, he] using h.sound symbol'
  routed symbol' side o ho := by
    rw [book_setBook] at ho
    split_ifs at ho with he
    · subst he
      obtain ⟨o', ho', hid, -⟩ | hinfo := hmem side o ho
      · rw [← hid]
        exact h.routed symbol' side o' ho'
      · exact hinfo
    · exact h.routed symbol' side o ho
  used := h.used
  trimmed := h.trimmed

/-- **A table entry is written** for a number that does not rest. -/
theorem Ok.setOrder (h : σ.Ok used) (href : ∀ symbol, ref ∉ (σ.book symbol).ids)
    (htrim : symbolStr (symbolPad info.symbol) = info.symbol) : (σ.setOrder ref info).Ok (used ++ [ref]) where
  sound := h.sound
  routed symbol side o ho := by
    have hne : o.id ≠ ref := by
      rintro rfl
      exact href symbol (List.mem_map_of_mem (mem_side_orders ho))
    show ∃ info', update σ.orderSymbol ref (some info) o.id = some info' ∧ _
    rw [update_of_ne hne]
    exact h.routed symbol side o ho
  used ref' info' hr := by
    by_cases he : ref' = ref
    · simp [he]
    · have hr' : update σ.orderSymbol ref (some info) ref' = some info' := hr
      rw [update_of_ne he] at hr'
      exact List.mem_append_left _ (h.used ref' info' hr')
  trimmed ref' info' hr := by
    have hr' : update σ.orderSymbol ref (some info) ref' = some info' := hr
    by_cases he : ref' = ref
    · subst he
      rw [update_self] at hr'
      rw [← Option.some.inj hr']
      exact htrim
    · rw [update_of_ne he] at hr'
      exact h.trimmed ref' info' hr'

/-- **A table entry is erased**, of a number that does not rest. -/
theorem Ok.eraseOrder (h : σ.Ok used) (href : ∀ symbol, ref ∉ (σ.book symbol).ids) : (σ.eraseOrder ref).Ok used := by
  have hold : ∀ ref' info', (σ.eraseOrder ref).orderSymbol ref' = some info' → σ.orderSymbol ref' = some info' := by
    intro ref' info' hr
    have hr' : update σ.orderSymbol ref none ref' = some info' := hr
    by_cases he : ref' = ref
    · subst he
      rw [update_self] at hr'
      cases hr'
    · rwa [update_of_ne he] at hr'
  refine ⟨h.sound, fun symbol side o ho => ?_, fun ref' info' hr => h.used ref' info' (hold ref' info' hr),
    fun ref' info' hr => h.trimmed ref' info' (hold ref' info' hr)⟩
  have hne : o.id ≠ ref := by
    rintro rfl
    exact href symbol (List.mem_map_of_mem (mem_side_orders ho))
  show ∃ info', update σ.orderSymbol ref none o.id = some info' ∧ _
  rw [update_of_ne hne]
  exact h.routed symbol side o ho

/-! ### The parts of a handler -/

/-- The reference price is found. -/
theorem reference_ok (risk : RiskEngine) {s : OrderBookV2} (h : Sound s) (symbol : Bytes) :
    ∃ p, risk.reference symbol s = .ok p := by
  have hbest : ∀ side p, s.book.best side = some p → 0 ≤ p ∧ p < 2 ^ 32 := by
    intro side p hp
    obtain ⟨o, ho, rfl⟩ := Option.map_eq_some_iff.mp hp
    exact (h.ordinary side o (List.mem_of_mem_head? ho)).2
  have hget : ∀ side, 0 ≤ (s.book.best side).getD 0 ∧ (s.book.best side).getD 0 < 2 ^ 32 := by
    intro side
    cases hp : s.book.best side with
    | none => simp
    | some p => exact hbest side p hp
  have hbid : s.bestBid = .ok ((s.book.best .buy).getD 0) := h.settled.bestBid_eq
  have hask : s.bestAsk = .ok ((s.book.best .sell).getD 0) := h.settled.bestAsk_eq
  have hsum : i64 ((s.book.best .buy).getD 0 + (s.book.best .sell).getD 0) =
      .ok ((s.book.best .buy).getD 0 + (s.book.best .sell).getD 0) := by
    have h₁ := hget .buy
    have h₂ := hget .sell
    exact if_pos ⟨by omega, by omega⟩
  rw [RiskEngine.reference]
  cases risk.lastTradePrice symbol with
  | some p => exact ⟨_, rfl⟩
  | none =>
    dsimp only
    split_ifs
    · rw [hbid, hask, ok_bind, ok_bind, hsum]
      exact ⟨_, rfl⟩
    · rw [hbid]
      exact ⟨_, rfl⟩
    · rw [hask]
      exact ⟨_, rfl⟩
    · exact ⟨_, rfl⟩

/-- **There is a verdict.** -/
theorem Ok.verdict (h : σ.Ok used) (req : OrderRequest) (info : OrderInfo) : ∃ v, σ.verdict req info = .ok v := by
  rw [Shard.verdict]
  cases σ.risk with
  | none => exact ⟨_, rfl⟩
  | some risk =>
    dsimp only
    rw [RiskEngine.check]
    cases risk.tooLarge req with
    | some v => exact ⟨v, rfl⟩
    | none =>
      dsimp only
      cases risk.outOfBounds req with
      | some v => exact ⟨v, rfl⟩
      | none =>
        obtain ⟨p, hp⟩ := reference_ok risk (h.sound info.symbol) info.symbol
        dsimp only
        rw [hp, ok_bind]
        cases risk.outOfBand req p with
        | some v => exact ⟨v, rfl⟩
        | none => exact ⟨_, rfl⟩

/-- The state after an order has been submitted and the book has returned. -/
def submitted (σ : Shard) (req : OrderRequest) (info : OrderInfo) (a : AddResult) (counted : Stats → Stats) : Shard :=
  ((((σ.setOrder req.id info).afterAdd info.symbol a).count counted).withRisk fun risk =>
    risk.noteResting info.symbol info.mpid info.side).withRisk (noteTrades info.symbol a.trades)

/-- **What Add Order can do**, when the order is new to its book. -/
inductive Adds (σ : Shard) (info : OrderInfo) (req : OrderRequest) (timestampNs : UInt64) : Handled → Prop
  /-- The risk engine declines it. -/
  | declined (v : RiskEngine.Verdict) : σ.verdict req info = .ok v → v.accepted = false →
      Adds σ info req timestampNs ⟨σ.count fun s => { s with riskRejected := s.riskRejected + 1 },
        [rejectReport req info.symbol v.detail], none⟩
  /-- The book takes it. -/
  | returned (v : RiskEngine.Verdict) (a : AddResult) (add : MDEvent) : σ.verdict req info = .ok v → v.accepted = true →
      (σ.books info.symbol).add req = .ok a → LimitAdded (σ.books info.symbol) req a → a.thrown = none →
      add = { type := .add, side := info.side, timestampNs, orderId := req.id
              symbol := symbolPad info.symbol, price := req.price, qty := restingQty req a.trades } →
      Adds σ info req timestampNs
        ⟨σ.submitted req info a fun s => { s with
            addOrders := s.addOrders + 1, tradesProduced := s.tradesProduced + a.trades.length },
          ackReport req info.symbol :: (if 0 < restingQty req a.trades then [.event add] else []) ++
            tradeOutputs req info timestampNs a.trades, none⟩
  /-- The book throws. -/
  | threw (v : RiskEngine.Verdict) (a : AddResult) (what : String) : σ.verdict req info = .ok v → v.accepted = true →
      (σ.books info.symbol).add req = .ok a → LimitAdded (σ.books info.symbol) req a →
      a.thrown = some (.runtimeError what) →
      Adds σ info req timestampNs
        ⟨(((σ.setOrder req.id info).afterAdd info.symbol a).eraseOrder req.id).count fun s => { s with
            addRejected := s.addRejected + 1 },
          [rejectReport req info.symbol (text what)], none⟩
  /-- The book throws what is not caught. -/
  | escaped (v : RiskEngine.Verdict) (a : AddResult) : σ.verdict req info = .ok v → v.accepted = true →
      (σ.books info.symbol).add req = .ok a → LimitAdded (σ.books info.symbol) req a → a.thrown = some .lengthError →
      Adds σ info req timestampNs ⟨(σ.setOrder req.id info).afterAdd info.symbol a, [], some .lengthError⟩

/-- A limit request is one that a sound book handles. -/
theorem Ok.add (h : σ.Ok used) (info : OrderInfo) {symbol : Bytes} {id : OrderId} (hid : id ∉ (σ.book symbol).ids)
    (price shares : UInt32) :
    ∃ a, (σ.books symbol).add (limitRequest id info price shares) = .ok a ∧
      LimitAdded (σ.books symbol) (limitRequest id info price shares) a := by
  apply (h.sound symbol).add rfl _ hid
  have := price.toNat_lt
  constructor
  · exact Int.natCast_nonneg _
  · show (price.toNat : ℤ) < 2 ^ 32
    omega

theorem Ok.addOrder (h : σ.Ok used) (m : AddOrderNoMPID) (mpid : Bytes)
    (hid : m.orderRefNumber ∉ (σ.book (infoOf m mpid).symbol).ids) :
    ∃ r, σ.addOrder m mpid = .ok r ∧ Adds σ (infoOf m mpid)
      (limitRequest m.orderRefNumber (infoOf m mpid) m.price m.shares) m.h.timestampNs r := by
  obtain ⟨v, hv⟩ := h.verdict (limitRequest m.orderRefNumber (infoOf m mpid) m.price m.shares) (infoOf m mpid)
  rw [Shard.addOrder, hv, ok_bind]
  cases ha : v.accepted with
  | false => exact ⟨_, rfl, .declined v hv ha⟩
  | true =>
    obtain ⟨a, hrun, hadd⟩ := h.add (infoOf m mpid) hid m.price m.shares
    simp only [Bool.not_true, Bool.false_eq_true, if_false]
    rw [hrun, ok_bind]
    cases hthrown : a.thrown with
    | none => exact ⟨_, rfl, .returned v a _ hv ha hrun hadd hthrown rfl⟩
    | some e =>
      obtain ⟨hkind, -⟩ := hadd.threw e hthrown
      cases hkind with
      | runtimeError what => exact ⟨_, rfl, .threw v a what hv ha hrun hadd hthrown⟩
      | lengthError => exact ⟨_, rfl, .escaped v a hv ha hrun hadd hthrown⟩

/-- **What taking shares can do.** -/
inductive TakesShares (σ : Shard) (ref : OrderId) (shares : UInt32) (counted : Stats → Stats)
    (onRisk : OrderInfo → RiskEngine → RiskEngine) (event : OrderInfo → MDEvent) : Handled → Prop
  /-- The table does not know the order. -/
  | unknown : σ.orderSymbol ref = none → TakesShares σ ref shares counted onRisk event
      ⟨σ.count fun s => { s with unrouted := s.unrouted + 1 }, [], none⟩
  /-- The order loses the shares, if it still rests. -/
  | known (info : OrderInfo) (s : OrderBookV2) : σ.orderSymbol ref = some info → Sound s →
      s.book = ((σ.book info.symbol).reduce ref shares.toUInt64).2 →
      (∃ found, (σ.books info.symbol).reduce ref shares.toUInt64 = .ok (found, s)) →
      TakesShares σ ref shares counted onRisk event
        ⟨((σ.setBook info.symbol s).withRisk (onRisk info)).count counted, [.event (event info)], none⟩

theorem Ok.takeShares (h : σ.Ok used) (ref : OrderId) (shares : UInt32) (counted : Stats → Stats)
    (onRisk : OrderInfo → RiskEngine → RiskEngine) (event : OrderInfo → MDEvent) :
    ∃ r, σ.takeShares ref shares counted onRisk event = .ok r ∧ TakesShares σ ref shares counted onRisk event r := by
  rw [Shard.takeShares]
  cases hi : σ.orderSymbol ref with
  | none => exact ⟨_, rfl, .unknown hi⟩
  | some info =>
    obtain ⟨found, s, hrun, hs, hb⟩ := (h.sound info.symbol).reduce ref shares.toUInt64
    dsimp only
    rw [hrun]
    exact ⟨_, rfl, .known info s hi hs hb ⟨found, hrun⟩⟩

/-- The state after an order has left its book and the table. -/
def withdrawn (σ : Shard) (ref : OrderId) (info : OrderInfo) (s : OrderBookV2) : Shard :=
  ((σ.setBook info.symbol s).withRisk fun risk => risk.noteRemoved info.symbol info.mpid info.side).eraseOrder ref

/-- The table knows the order, and `s` is its book without it. -/
structure Withdraws (σ : Shard) (ref : OrderId) (info : OrderInfo) (s : OrderBookV2) : Prop where
  /-- The entry. -/
  known : σ.orderSymbol ref = some info
  /-- The call that removes the order. -/
  cancelled : ∃ found, (σ.books info.symbol).cancel ref = .ok (found, s)
  /-- The book. -/
  sound : Sound s
  /-- Its orders. -/
  book : s.book = ((σ.book info.symbol).cancel ref).2

theorem Ok.withdraws (h : σ.Ok used) (hi : σ.orderSymbol ref = some info) :
    ∃ found s, (σ.books info.symbol).cancel ref = .ok (found, s) ∧ Withdraws σ ref info s := by
  obtain ⟨found, s, hrun, hs, hb⟩ := (h.sound info.symbol).cancel ref
  exact ⟨found, s, hrun, hi, ⟨found, hrun⟩, hs, hb⟩

/-- **What Order Delete can do.** -/
inductive Deletes (σ : Shard) (m : OrderDelete) : Handled → Prop
  /-- The table does not know the order. -/
  | unknown : σ.orderSymbol m.orderRefNumber = none →
      Deletes σ m ⟨σ.count fun s => { s with unrouted := s.unrouted + 1 }, [], none⟩
  /-- The order leaves. -/
  | known (info : OrderInfo) (s : OrderBookV2) : Withdraws σ m.orderRefNumber info s →
      Deletes σ m ⟨(σ.withdrawn m.orderRefNumber info s).count fun s => { s with deletes := s.deletes + 1 },
        [.event { type := .delete, side := info.side, timestampNs := m.h.timestampNs, orderId := m.orderRefNumber
                  symbol := symbolPad info.symbol }], none⟩

theorem Ok.orderDelete (h : σ.Ok used) (m : OrderDelete) : ∃ r, σ.orderDelete m = .ok r ∧ Deletes σ m r := by
  rw [Shard.orderDelete]
  cases hi : σ.orderSymbol m.orderRefNumber with
  | none => exact ⟨_, rfl, .unknown hi⟩
  | some info =>
    obtain ⟨found, s, hrun, hw⟩ := h.withdraws hi
    dsimp only
    rw [hrun]
    exact ⟨_, rfl, .known info s hw⟩

/-- The request of Order Replace. -/
def replaceRequest (m : OrderReplace) (info : OrderInfo) : OrderRequest :=
  limitRequest m.newOrderRefNumber info m.price m.shares

/-- The event of Order Replace, when shares rest or when none do. -/
def replaceEvent (m : OrderReplace) (info : OrderInfo) (resting : Quantity) : MDEvent :=
  if 0 < resting then
    { type := .replace, side := info.side, timestampNs := m.h.timestampNs, orderId := m.originalOrderRefNumber
      newOrderId := m.newOrderRefNumber, symbol := symbolPad info.symbol, price := m.price.toNat, qty := resting }
  else
    { type := .delete, side := info.side, timestampNs := m.h.timestampNs, orderId := m.originalOrderRefNumber
      symbol := symbolPad info.symbol }

/-- **What Order Replace can do**, when the order is new to its book. -/
inductive Replaces (σ : Shard) (m : OrderReplace) : Handled → Prop
  /-- The table does not know the old order. -/
  | unknown : σ.orderSymbol m.originalOrderRefNumber = none →
      Replaces σ m ⟨σ.count fun s => { s with unrouted := s.unrouted + 1 }, [], none⟩
  /-- The old order has left, and the risk engine declines the new one. -/
  | declined (info : OrderInfo) (s : OrderBookV2) (v : RiskEngine.Verdict) :
      Withdraws σ m.originalOrderRefNumber info s →
      (σ.withdrawn m.originalOrderRefNumber info s).verdict (replaceRequest m info) info = .ok v → v.accepted = false →
      Replaces σ m ⟨(σ.withdrawn m.originalOrderRefNumber info s).count fun s => { s with
          riskRejected := s.riskRejected + 1 },
        [rejectReport (replaceRequest m info) info.symbol v.detail], none⟩
  /-- The old order has left, and the book takes the new one. -/
  | returned (info : OrderInfo) (s : OrderBookV2) (v : RiskEngine.Verdict) (a : AddResult) :
      Withdraws σ m.originalOrderRefNumber info s →
      (σ.withdrawn m.originalOrderRefNumber info s).verdict (replaceRequest m info) info = .ok v → v.accepted = true →
      s.add (replaceRequest m info) = .ok a → LimitAdded s (replaceRequest m info) a → a.thrown = none →
      Replaces σ m ⟨(σ.withdrawn m.originalOrderRefNumber info s).submitted (replaceRequest m info) info a fun s => { s with
            replaces := s.replaces + 1, tradesProduced := s.tradesProduced + a.trades.length },
          ackReport (replaceRequest m info) info.symbol ::
            .event (replaceEvent m info (restingQty (replaceRequest m info) a.trades)) ::
            tradeOutputs (replaceRequest m info) info m.h.timestampNs a.trades, none⟩
  /-- The old order has left, and the book throws. -/
  | threw (info : OrderInfo) (s : OrderBookV2) (v : RiskEngine.Verdict) (a : AddResult) (what : String) :
      Withdraws σ m.originalOrderRefNumber info s →
      (σ.withdrawn m.originalOrderRefNumber info s).verdict (replaceRequest m info) info = .ok v → v.accepted = true →
      s.add (replaceRequest m info) = .ok a → LimitAdded s (replaceRequest m info) a →
      a.thrown = some (.runtimeError what) →
      Replaces σ m ⟨((σ.withdrawn m.originalOrderRefNumber info s).afterAdd info.symbol a).count fun s => { s with
            addRejected := s.addRejected + 1 },
          [rejectReport (replaceRequest m info) info.symbol (text what)], none⟩
  /-- The old order has left, and the book throws what is not caught. -/
  | escaped (info : OrderInfo) (s : OrderBookV2) (v : RiskEngine.Verdict) (a : AddResult) :
      Withdraws σ m.originalOrderRefNumber info s →
      (σ.withdrawn m.originalOrderRefNumber info s).verdict (replaceRequest m info) info = .ok v → v.accepted = true →
      s.add (replaceRequest m info) = .ok a → LimitAdded s (replaceRequest m info) a → a.thrown = some .lengthError →
      Replaces σ m ⟨(σ.withdrawn m.originalOrderRefNumber info s).afterAdd info.symbol a, [], some .lengthError⟩

/-- Withdrawing an order keeps the invariant. -/
theorem Ok.withdrawn (h : σ.Ok used) {s : OrderBookV2} (hw : Withdraws σ ref info s) :
    (σ.withdrawn ref info s).Ok used := by
  have hset : (σ.setBook info.symbol s).Ok used := by
    refine h.setBook info.symbol hw.sound fun side o ho => Or.inl ?_
    rw [hw.book] at ho
    exact Book.hasAt_of_mem (mem_side_cancel.mp ho).1
  refine (hset.congr rfl rfl : ((σ.setBook info.symbol s).withRisk _).Ok used).eraseOrder fun symbol hm => ?_
  have hm' : ref ∈ ((σ.setBook info.symbol s).book symbol).ids := hm
  rw [book_setBook] at hm'
  split_ifs at hm' with he
  · -- not in its own book any more
    rw [hw.book] at hm'
    obtain ⟨o, ho, hid⟩ := List.mem_map.mp hm'
    obtain ⟨side, ho⟩ := mem_orders_iff.mp ho
    exact (mem_side_cancel.mp ho).2 hid
  · exact he (h.symbol_eq hw.known hm')

theorem book_withdrawn (σ : Shard) (ref : OrderId) (info : OrderInfo) (s : OrderBookV2) (symbol : Bytes) :
    (σ.withdrawn ref info s).book symbol = if symbol = info.symbol then s.book else σ.book symbol :=
  book_setBook σ info.symbol symbol s

theorem books_withdrawn (σ : Shard) (ref : OrderId) (info : OrderInfo) (s : OrderBookV2) :
    (σ.withdrawn ref info s).books info.symbol = s := by
  simp [Shard.withdrawn, Shard.eraseOrder, Shard.withRisk, Shard.setBook]

theorem Ok.orderReplace (h : σ.Ok used) (m : OrderReplace) (href : m.newOrderRefNumber ∉ used) :
    ∃ r, σ.orderReplace m = .ok r ∧ Replaces σ m r := by
  rw [Shard.orderReplace]
  cases hi : σ.orderSymbol m.originalOrderRefNumber with
  | none => exact ⟨_, rfl, .unknown hi⟩
  | some info =>
    obtain ⟨found, s, hrun, hw⟩ := h.withdraws hi
    have h₁ := h.withdrawn hw
    have hbooks := books_withdrawn σ m.originalOrderRefNumber info s
    obtain ⟨v, hv⟩ := h₁.verdict (replaceRequest m info) info
    dsimp only
    rw [hrun, ok_bind]
    dsimp only
    rw [show limitRequest m.newOrderRefNumber info m.price m.shares = replaceRequest m info from rfl,
      show ((σ.setBook info.symbol s).withRisk fun risk => risk.noteRemoved info.symbol info.mpid info.side).eraseOrder
        m.originalOrderRefNumber = σ.withdrawn m.originalOrderRefNumber info s from rfl, hv, ok_bind]
    cases ha : v.accepted with
    | false => exact ⟨_, rfl, .declined info s v hw hv ha⟩
    | true =>
      obtain ⟨a, hadd, hla⟩ := h₁.add info (h₁.not_mem_ids href info.symbol) m.price m.shares
      rw [hbooks] at hadd hla
      simp only [Bool.not_true, Bool.false_eq_true, if_false]
      rw [hbooks, show s.add (replaceRequest m info) = .ok a from hadd, ok_bind]
      cases hthrown : a.thrown with
      | none => exact ⟨_, rfl, .returned info s v a hw hv ha hadd hla hthrown⟩
      | some e =>
        obtain ⟨hkind, -⟩ := hla.threw e hthrown
        cases hkind with
        | runtimeError what => exact ⟨_, rfl, .threw info s v a what hw hv ha hadd hla hthrown⟩
        | lengthError => exact ⟨_, rfl, .escaped info s v a hw hv ha hadd hla hthrown⟩

end Shard

end MatchingEngine
