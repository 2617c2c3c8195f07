import MatchingEngine.Feed.Routing

/-!
# Runs of the sequencer

Every message keeps `Shard.Ok`, whatever it does (`Handles.ok`), so a new sequencer handles
any list of messages whose reference numbers are fresh, and `run_induction` carries an
invariant of single messages to such lists.

At the end the routing table itself: it knows every resting order, with its symbol and its
side, and the messages that name an order find it (`run_routed`).
-/

namespace MatchingEngine

open Foundation Itch Mdfeed Function OrderBookV2

/-- A vector can have the window. -/
abbrev BookConfig.Fits (c : BookConfig) : Prop := WindowFits c.initialWindow.toInt

/-- The message types that books are concerned by. -/
def Itch.Message.concernsBook : Message → Bool
  | .addOrderNoMPID _ | .addOrderMPID _ | .orderCancel _ | .orderExecuted _ | .orderExecutedWithPrice _
  | .orderDelete _ | .orderReplace _ => true
  | _ => false

/-- A book after a limit order holds what it held, and perhaps the limit order. -/
theorem LimitAdded.mem_side {s : OrderBookV2} {req : OrderRequest} {a : AddResult} (h : LimitAdded s req a) {side : Side}
    {o : Order ℤ OrderId} (ho : o ∈ a.book.book.side side) :
    s.book.HasAt side o ∨ (a.thrown = none ∧ side = req.side ∧ o.id = req.id) := by
  cases hthrown : a.thrown with
  | none =>
    rw [h.returned hthrown] at ho
    obtain hat | ⟨hs, hid⟩ := mem_side_afterLimit ho
    · exact Or.inl hat
    · exact Or.inr ⟨rfl, hs, hid⟩
  | some e =>
    rw [(h.threw e hthrown).2.2] at ho
    exact Or.inl (mem_side_taken ho)

/-- The trades of a limit order are under its own id. -/
theorem LimitAdded.takerId {s : OrderBookV2} {req : OrderRequest} {a : AddResult} (h : LimitAdded s req a) :
    ∀ t ∈ a.trades, t.takerId = req.id := by
  intro t ht
  rw [h.trades] at ht
  obtain ⟨f, -, rfl⟩ := List.mem_map.mp ht
  rfl

namespace Shard

variable {σ : Shard} {used : List OrderId} {ref : OrderId} {info : OrderInfo} {req : OrderRequest} {m : Message}
  {r : Handled}

/-! ### Every message keeps the invariant -/

/-- **What a message can do**, when the number it introduces is a new one. -/
inductive Handles (σ : Shard) : Message → Handled → Prop
  /-- Add Order. -/
  | addOrderNoMPID {m : AddOrderNoMPID} {r : Handled} : Adds σ (infoOf m [])
      (limitRequest m.orderRefNumber (infoOf m []) m.price m.shares) m.h.timestampNs r → Handles σ (.addOrderNoMPID m) r
  /-- Add Order with MPID. -/
  | addOrderMPID {m : AddOrderMPID} {r : Handled} : Adds σ (infoOf m.toAddOrderNoMPID m.attribution.str)
      (limitRequest m.orderRefNumber (infoOf m.toAddOrderNoMPID m.attribution.str) m.price m.shares) m.h.timestampNs r →
      Handles σ (.addOrderMPID m) r
  /-- Order Cancel. -/
  | orderCancel {m : OrderCancel} {r : Handled} : TakesShares σ m.orderRefNumber m.canceledShares (fun s => { s with cancels := s.cancels + 1 })
      (fun _ => id) (fun info =>
        { type := .cancel, side := info.side, timestampNs := m.h.timestampNs, orderId := m.orderRefNumber
          symbol := symbolPad info.symbol, qty := m.canceledShares.toUInt64 }) r → Handles σ (.orderCancel m) r
  /-- Order Executed. -/
  | orderExecuted {m : OrderExecuted} {r : Handled} : TakesShares σ m.orderRefNumber m.executedShares
      (fun s => { s with executes := s.executes + 1 }) (fun _ => id) (fun info =>
        { type := .trade, side := info.side, timestampNs := m.h.timestampNs, orderId := m.orderRefNumber
          symbol := symbolPad info.symbol, price := 0, qty := m.executedShares.toUInt64 }) r →
      Handles σ (.orderExecuted m) r
  /-- Order Executed With Price, marked non-printable. -/
  | nonPrintable {m : OrderExecutedWithPrice} : m.printable = 78 → Handles σ (.orderExecutedWithPrice m)
      ⟨σ.count fun s => { s with nonPrintableSkipped := s.nonPrintableSkipped + 1 }, [], none⟩
  /-- Order Executed With Price. -/
  | orderExecutedWithPrice {m : OrderExecutedWithPrice} {r : Handled} : m.printable ≠ 78 → TakesShares σ m.orderRefNumber m.executedShares
      (fun s => { s with executes := s.executes + 1 })
      (fun info risk => risk.onTrade info.symbol m.executionPrice.toNat) (fun info =>
        { type := .trade, side := info.side, timestampNs := m.h.timestampNs, orderId := m.orderRefNumber
          symbol := symbolPad info.symbol, price := m.executionPrice.toNat, qty := m.executedShares.toUInt64 }) r →
      Handles σ (.orderExecutedWithPrice m) r
  /-- Order Delete. -/
  | orderDelete {m : OrderDelete} {r : Handled} : Deletes σ m r → Handles σ (.orderDelete m) r
  /-- Order Replace. -/
  | orderReplace {m : OrderReplace} {r : Handled} : Replaces σ m r → Handles σ (.orderReplace m) r
  /-- The messages that no book is concerned by. -/
  | other {m : Message} : m.concernsBook = false → Handles σ m ⟨σ.count fun s => { s with otherMessageTypes := s.otherMessageTypes + 1 }, [], none⟩

/-- **Every message is handled.** -/
theorem Ok.onMessage (h : σ.Ok used) (m : Message) (hfresh : ∀ ref ∈ m.newRef, ref ∉ used) :
    ∃ r, σ.onMessage m = .ok r ∧ Handles σ m r := by
  cases m with
  | addOrderNoMPID m =>
    obtain ⟨r, hrun, hr⟩ := h.addOrder m [] (h.not_mem_ids (hfresh _ rfl) _)
    exact ⟨r, hrun, .addOrderNoMPID hr⟩
  | addOrderMPID m =>
    obtain ⟨r, hrun, hr⟩ := h.addOrder m.toAddOrderNoMPID m.attribution.str (h.not_mem_ids (hfresh _ rfl) _)
    exact ⟨r, hrun, .addOrderMPID hr⟩
  | orderCancel m =>
    obtain ⟨r, hrun, hr⟩ := h.takeShares m.orderRefNumber m.canceledShares _ _ _
    exact ⟨r, hrun, .orderCancel hr⟩
  | orderExecuted m =>
    obtain ⟨r, hrun, hr⟩ := h.takeShares m.orderRefNumber m.executedShares _ _ _
    exact ⟨r, hrun, .orderExecuted hr⟩
  | orderExecutedWithPrice m =>
    by_cases hn : m.printable = 78
    · exact ⟨_, if_pos hn, .nonPrintable hn⟩
    · obtain ⟨r, hrun, hr⟩ := h.takeShares m.orderRefNumber m.executedShares _ _ _
      exact ⟨r, (if_neg hn).trans hrun, .orderExecutedWithPrice hn hr⟩
  | orderDelete m =>
    obtain ⟨r, hrun, hr⟩ := h.orderDelete m
    exact ⟨r, hrun, .orderDelete hr⟩
  | orderReplace m =>
    obtain ⟨r, hrun, hr⟩ := h.orderReplace m (hfresh _ rfl)
    exact ⟨r, hrun, .orderReplace hr⟩
  | _ => exact ⟨_, rfl, .other rfl⟩

/-- Its book has taken an order that is new, and the table knows it. -/
theorem Ok.submit (h : σ.Ok used) (href : req.id ∉ used) (hside : req.side = info.side)
    (htrim : symbolStr (symbolPad info.symbol) = info.symbol) {a : AddResult}
    (ha : LimitAdded (σ.books info.symbol) req a) :
    ((σ.setOrder req.id info).afterAdd info.symbol a).Ok (used ++ [req.id]) := by
  refine ((h.setOrder (h.not_mem_ids href) htrim).setBook info.symbol ha.sound fun side o ho => ?_).congr rfl rfl
  obtain hat | ⟨-, hs, hid⟩ := ha.mem_side ho
  · exact Or.inl hat
  · refine Or.inr ⟨info, ?_, rfl, by rw [hs, hside]⟩
    rw [hid]
    exact update_self ..

/-- Its book has thrown an order back. -/
theorem Ok.threw (h : σ.Ok used) {symbol : Bytes} {a : AddResult} (ha : LimitAdded (σ.books symbol) req a)
    (hthrown : a.thrown ≠ none) : (σ.afterAdd symbol a).Ok used := by
  refine (h.setBook symbol ha.sound fun side o ho => ?_).congr rfl rfl
  obtain hat | ⟨hn, -⟩ := ha.mem_side ho
  · exact Or.inl hat
  · exact absurd hn hthrown

theorem Ok.submitted (h : σ.Ok used) (href : req.id ∉ used) (hside : req.side = info.side)
    (htrim : symbolStr (symbolPad info.symbol) = info.symbol) {a : AddResult}
    (ha : LimitAdded (σ.books info.symbol) req a) (counted : Stats → Stats) :
    (σ.submitted req info a counted).Ok (used ++ [req.id]) :=
  (h.submit href hside htrim ha).congr rfl rfl

theorem Ok.adds (h : σ.Ok used) (href : req.id ∉ used) (hside : req.side = info.side)
    (htrim : symbolStr (symbolPad info.symbol) = info.symbol) {timestampNs : UInt64}
    (hr : Adds σ info req timestampNs r) : r.shard.Ok (used ++ [req.id]) := by
  cases hr with
  | declined v => exact (h.mono (List.subset_append_left ..)).congr rfl rfl
  | returned v a add _ _ _ ha => exact h.submitted href hside htrim ha _
  | threw v a what _ _ _ ha hthrown =>
    have hset := h.submit href hside htrim ha
    refine Ok.congr (hset.eraseOrder fun symbol hm => ?_) rfl rfl
    -- the order has not come to rest
    rw [book_afterAdd] at hm
    split_ifs at hm
    · rw [(ha.threw _ hthrown).2.2] at hm
      exact h.not_mem_ids href _ (ids_taken_subset _ _ hm)
    · exact h.not_mem_ids href symbol hm
  | escaped v a _ _ _ ha => exact h.submit href hside htrim ha

theorem Ok.takesShares (h : σ.Ok used) {shares : UInt32} {counted : Stats → Stats}
    {onRisk : OrderInfo → RiskEngine → RiskEngine} {event : OrderInfo → MDEvent}
    (hr : TakesShares σ ref shares counted onRisk event r) : r.shard.Ok used := by
  cases hr with
  | unknown => exact h.congr rfl rfl
  | known info s _ hs hb =>
    refine Ok.congr (h.setBook info.symbol hs fun side o ho => Or.inl ?_) rfl rfl
    rw [hb] at ho
    exact mem_side_reduce ho

theorem Ok.deletes (h : σ.Ok used) {m : OrderDelete} (hr : Deletes σ m r) : r.shard.Ok used := by
  cases hr with
  | unknown => exact h.congr rfl rfl
  | known info s hw => exact (h.withdrawn hw).congr rfl rfl

/-- The book of the symbol, after a withdrawal. -/
theorem added_withdrawn {s : OrderBookV2} {a : AddResult} (ha : LimitAdded s req a) (σ : Shard) (ref : OrderId)
    (info : OrderInfo) : LimitAdded ((σ.withdrawn ref info s).books info.symbol) req a := by
  rwa [books_withdrawn]

theorem Ok.replaces (h : σ.Ok used) {m : OrderReplace} (href : m.newOrderRefNumber ∉ used) (hr : Replaces σ m r) :
    r.shard.Ok (used ++ [m.newOrderRefNumber]) := by
  have hsub : used ⊆ used ++ [m.newOrderRefNumber] := List.subset_append_left ..
  cases hr with
  | unknown => exact (h.mono hsub).congr rfl rfl
  | declined info s v hw => exact ((h.withdrawn hw).mono hsub).congr rfl rfl
  | returned info s v a hw _ _ _ ha =>
    exact (h.withdrawn hw).submitted href rfl (h.trimmed _ _ hw.known) (added_withdrawn ha σ _ info) _
  | threw info s v a what hw _ _ _ ha hthrown =>
    refine (((h.withdrawn hw).threw (added_withdrawn ha σ _ info) ?_).mono hsub).congr rfl rfl
    rw [hthrown]
    exact Option.some_ne_none _
  | escaped info s v a hw _ _ _ ha hthrown =>
    refine ((h.withdrawn hw).threw (added_withdrawn ha σ _ info) ?_).mono hsub
    rw [hthrown]
    exact Option.some_ne_none _

/-- The window of the book. -/
theorem Withdraws.window {s : OrderBookV2} (hw : Withdraws σ ref info s) (h : σ.Ok used) :
    s.initialWindow = (σ.books info.symbol).initialWindow := by
  obtain ⟨found, hrun⟩ := hw.cancelled
  exact (h.sound info.symbol).cancel_window hrun

/-- An order that fails for want of a window leaves the books alone, -/
theorem Ok.book_escaped (h : σ.Ok used) {a : AddResult} (ha : LimitAdded (σ.books info.symbol) req a)
    (hthrown : a.thrown = some .lengthError) (symbol : Bytes) :
    ((σ.setOrder req.id info).afterAdd info.symbol a).book symbol = σ.book symbol := by
  rw [book_afterAdd, (ha.of_lengthError (h.sound _) hthrown).2.2]
  split_ifs with hs
  · rw [hs]
    rfl
  · rfl

/-- and so does one that was to replace another, since that one did not rest either. -/
theorem Ok.book_escaped_withdrawn (h : σ.Ok used) {s : OrderBookV2} (hw : Withdraws σ ref info s) {a : AddResult}
    (ha : LimitAdded s req a) (hthrown : a.thrown = some .lengthError) (symbol : Bytes) :
    ((σ.withdrawn ref info s).afterAdd info.symbol a).book symbol = σ.book symbol := by
  have hfits := ha.not_windowFits hthrown
  rw [hw.window h] at hfits
  have hnil : (σ.book info.symbol).orders = [] := (h.sound info.symbol).orders_eq_nil hfits
  have hid : ref ∉ (σ.book info.symbol).ids := by
    rw [Book.ids, hnil]
    exact List.not_mem_nil
  rw [book_afterAdd, book_withdrawn, (ha.of_lengthError hw.sound hthrown).2.2, hw.book, cancel_of_not_mem hid]
  split_ifs with hs
  · rw [hs]
  · rfl

/-- The symbol of an Add Order message is what is left of a padded one. -/
theorem infoOf_trimmed (m : AddOrderNoMPID) (mpid : Bytes) :
    symbolStr (symbolPad (infoOf m mpid).symbol) = (infoOf m mpid).symbol :=
  congrArg symbolStr (symbolPad_symbolStr m.stock)

/-- **Every message keeps the invariant.** -/
theorem Handles.ok (hr : Handles σ m r) (h : σ.Ok used) (hfresh : ∀ ref ∈ m.newRef, ref ∉ used) :
    r.shard.Ok (used ++ m.newRef.toList) := by
  have hmono : ∀ {σ' : Shard}, σ'.Ok used → σ'.Ok (used ++ m.newRef.toList) := fun hσ =>
    hσ.mono (List.subset_append_left ..)
  cases hr with
  | addOrderNoMPID hr => exact h.adds (hfresh _ rfl) rfl (infoOf_trimmed _ _) hr
  | addOrderMPID hr => exact h.adds (hfresh _ rfl) rfl (infoOf_trimmed _ _) hr
  | orderCancel hr => exact hmono (h.takesShares hr)
  | orderExecuted hr => exact hmono (h.takesShares hr)
  | nonPrintable => exact hmono (h.congr rfl rfl)
  | orderExecutedWithPrice _ hr => exact hmono (h.takesShares hr)
  | orderDelete hr => exact hmono (h.deletes hr)
  | orderReplace hr => exact h.replaces (hfresh _ rfl) hr
  | other => exact hmono (h.congr rfl rfl)

/-! ### Windows -/

/-- A book changes, and its window does not. -/
theorem window_setBook {symbol : Bytes} {s : OrderBookV2} (hs : s.initialWindow = (σ.books symbol).initialWindow)
    (symbol' : Bytes) : ((σ.setBook symbol s).books symbol').initialWindow = (σ.books symbol').initialWindow := by
  by_cases he : symbol' = symbol
  · subst he
    simpa [Shard.setBook] using hs
  · simp [Shard.setBook, he]

theorem Adds.window {timestampNs : UInt64} (hr : Adds σ info req timestampNs r) (symbol : Bytes) :
    (r.shard.books symbol).initialWindow = (σ.books symbol).initialWindow := by
  cases hr with
  | declined => rfl
  | returned v a add _ _ _ ha => exact window_setBook ha.window symbol
  | threw v a what _ _ _ ha => exact window_setBook ha.window symbol
  | escaped v a _ _ _ ha => exact window_setBook ha.window symbol

theorem TakesShares.window {shares : UInt32} {counted : Stats → Stats} {onRisk : OrderInfo → RiskEngine → RiskEngine}
    {event : OrderInfo → MDEvent} (hr : TakesShares σ ref shares counted onRisk event r) (h : σ.Ok used) (symbol : Bytes) :
    (r.shard.books symbol).initialWindow = (σ.books symbol).initialWindow := by
  cases hr with
  | unknown => rfl
  | known info s _ _ _ hrun =>
    obtain ⟨found, hrun⟩ := hrun
    exact window_setBook ((h.sound info.symbol).reduce_window hrun) symbol

theorem Replaces.window {m : OrderReplace} (hr : Replaces σ m r) (h : σ.Ok used) (symbol : Bytes) :
    (r.shard.books symbol).initialWindow = (σ.books symbol).initialWindow := by
  have hleft : ∀ {info s}, Withdraws σ m.originalOrderRefNumber info s →
      ((σ.withdrawn m.originalOrderRefNumber info s).books symbol).initialWindow = (σ.books symbol).initialWindow :=
    fun hw => window_setBook (hw.window h) symbol
  have hnext : ∀ {info s a}, Withdraws σ m.originalOrderRefNumber info s → LimitAdded s (replaceRequest m info) a →
      (((σ.withdrawn m.originalOrderRefNumber info s).setBook info.symbol a.book).books symbol).initialWindow =
        (σ.books symbol).initialWindow := fun {info _ _} hw ha =>
    (window_setBook (added_withdrawn ha σ _ info).window symbol).trans (hleft hw)
  cases hr with
  | unknown => rfl
  | declined info s v hw => exact hleft hw
  | returned info s v a hw _ _ _ ha => exact hnext hw ha
  | threw info s v a what hw _ _ _ ha => exact hnext hw ha
  | escaped info s v a hw _ _ _ ha => exact hnext hw ha

/-- **No message changes the window of a book.** -/
theorem Handles.window (hr : Handles σ m r) (h : σ.Ok used) (symbol : Bytes) :
    (r.shard.books symbol).initialWindow = (σ.books symbol).initialWindow := by
  cases hr with
  | addOrderNoMPID hr => exact hr.window symbol
  | addOrderMPID hr => exact hr.window symbol
  | orderCancel hr => exact hr.window h symbol
  | orderExecuted hr => exact hr.window h symbol
  | nonPrintable => rfl
  | orderExecutedWithPrice _ hr => exact hr.window h symbol
  | orderDelete hr =>
    cases hr with
    | unknown => rfl
    | known info s hw => exact window_setBook (hw.window h) symbol
  | orderReplace hr => exact hr.window h symbol
  | other => rfl

/-! ### Messages that return -/

/-- **An order does not fail for want of a window**: if the risk engine accepts it and it has shares, there can be a
price axis for it. -/
def Returns (σ : Shard) (info : OrderInfo) (req : OrderRequest) : Prop :=
  ∀ v ∈ (σ.verdict req info).toOption, v.accepted = true → 0 < req.qty → WindowFits (σ.books info.symbol).initialWindow

/-- **A message submits no order that fails for want of a window.** -/
def MessageReturns (σ : Shard) : Message → Prop
  | .addOrderNoMPID m => σ.Returns (infoOf m []) (limitRequest m.orderRefNumber (infoOf m []) m.price m.shares)
  | .addOrderMPID m =>
    let info := infoOf m.toAddOrderNoMPID m.attribution.str
    σ.Returns info (limitRequest m.orderRefNumber info m.price m.shares)
  | .orderReplace m => ∀ info ∈ σ.orderSymbol m.originalOrderRefNumber,
    -- the old order has left when the new one is submitted
    ∀ x ∈ ((σ.books info.symbol).cancel m.originalOrderRefNumber).toOption,
      (σ.withdrawn m.originalOrderRefNumber info x.2).Returns info (replaceRequest m info)
  | _ => True

instance (σ : Shard) (info : OrderInfo) (req : OrderRequest) : Decidable (σ.Returns info req) :=
  inferInstanceAs (Decidable (∀ v ∈ (σ.verdict req info).toOption, _ → _ → _))

instance (σ : Shard) : (m : Message) → Decidable (σ.MessageReturns m)
  | .addOrderNoMPID _ | .addOrderMPID _ => inferInstanceAs (Decidable (Returns _ _ _))
  | .orderReplace m => inferInstanceAs (Decidable (∀ info ∈ σ.orderSymbol m.originalOrderRefNumber,
    ∀ x ∈ ((σ.books info.symbol).cancel m.originalOrderRefNumber).toOption,
      (σ.withdrawn m.originalOrderRefNumber info x.2).Returns info (replaceRequest m info)))
  | .systemEvent _ | .stockDirectory _ | .stockTradingAction _ | .regSHORestriction _
  | .marketParticipantPosition _ | .mwcbDeclineLevel _ | .mwcbStatus _ | .ipoQuotingPeriodUpdate _
  | .luldAuctionCollar _ | .operationalHalt _ | .orderExecuted _ | .orderExecutedWithPrice _ | .orderCancel _
  | .orderDelete _ | .tradeNonCross _ | .crossTrade _ | .brokenTrade _ | .noii _ | .rpii _
  | .directListingCapitalRaise _ => inferInstanceAs (Decidable True)

theorem returns_of_declined {v : RiskEngine.Verdict} (hv : σ.verdict req info = .ok v) (hacc : v.accepted = false) :
    σ.Returns info req := by
  intro v' hv' hacc'
  rw [hv] at hv'
  rw [← Option.some.inj hv', hacc] at hacc'
  cases hacc'

/-- **An accepted order fails for want of a window** if and only if its book throws a `std::length_error`. -/
theorem returns_iff (hs : Sound (σ.books info.symbol)) {v : RiskEngine.Verdict} (hv : σ.verdict req info = .ok v)
    (hacc : v.accepted = true) {a : AddResult} (ha : LimitAdded (σ.books info.symbol) req a) :
    σ.Returns info req ↔ a.thrown ≠ some .lengthError := by
  constructor
  · intro hret hthrown
    have hw := ha.not_windowFits hthrown
    have hleft := (ha.threw _ hthrown).2.1
    rw [(hs.unopened hw req).1] at hleft
    exact hw (hret v (by rw [hv]; rfl) hacc (toNat_pos.mp hleft))
  · intro hthrown v' _ _ hq
    by_contra hw
    have hleft : 0 < ((σ.books info.symbol).book.take req).left := by
      rw [(hs.unopened hw req).1]
      exact toNat_pos.mpr hq
    cases ht : a.thrown with
    | none => exact hw (ha.windowFits ht hleft)
    | some e =>
      cases (ha.threw e ht).1 with
      | runtimeError what hw' => exact hw hw'
      | lengthError => exact hthrown ht

theorem Adds.returns_iff (hr : Adds σ info req timestampNs r) (h : σ.Ok used) :
    σ.Returns info req ↔ r.escaped = none := by
  cases hr with
  | declined v hv hacc => exact iff_of_true (returns_of_declined hv hacc) rfl
  | returned v a add hv hacc _ ha hthrown =>
    exact iff_of_true ((Shard.returns_iff (h.sound _) hv hacc ha).mpr (by simp [hthrown])) rfl
  | threw v a what hv hacc _ ha hthrown =>
    exact iff_of_true ((Shard.returns_iff (h.sound _) hv hacc ha).mpr (by simp [hthrown])) rfl
  | escaped v a hv hacc _ ha hthrown =>
    exact iff_of_false (fun hret => (Shard.returns_iff (h.sound _) hv hacc ha).mp hret hthrown) (by simp)

theorem Replaces.returns_iff {m : OrderReplace} (hr : Replaces σ m r) (h : σ.Ok used) :
    σ.MessageReturns (.orderReplace m) ↔ r.escaped = none := by
  have hnext : ∀ {info s}, Withdraws σ m.originalOrderRefNumber info s → (σ.MessageReturns (.orderReplace m) ↔
      (σ.withdrawn m.originalOrderRefNumber info s).Returns info (replaceRequest m info)) := by
    intro info s hw
    obtain ⟨found, hrun⟩ := hw.cancelled
    rw [MessageReturns, hw.known]
    constructor
    · exact fun h => h info rfl (found, s) (by rw [hrun]; rfl)
    · intro h info' hi x hx
      obtain rfl := Option.some.inj hi
      rw [hrun] at hx
      rw [← Option.some.inj hx]
      exact h
  have hsound : ∀ {info s}, Withdraws σ m.originalOrderRefNumber info s →
      Sound ((σ.withdrawn m.originalOrderRefNumber info s).books info.symbol) := fun hw => (h.withdrawn hw).sound _
  cases hr with
  | unknown hn => exact iff_of_true (by simp [MessageReturns, hn]) rfl
  | declined info s v hw hv hacc => exact iff_of_true ((hnext hw).mpr (returns_of_declined hv hacc)) rfl
  | returned info s v a hw hv hacc _ ha hthrown =>
    rw [hnext hw, Shard.returns_iff (hsound hw) hv hacc (added_withdrawn ha σ _ info)]
    exact iff_of_true (by simp [hthrown]) rfl
  | threw info s v a what hw hv hacc _ ha hthrown =>
    rw [hnext hw, Shard.returns_iff (hsound hw) hv hacc (added_withdrawn ha σ _ info)]
    exact iff_of_true (by simp [hthrown]) rfl
  | escaped info s v a hw hv hacc _ ha hthrown =>
    rw [hnext hw, Shard.returns_iff (hsound hw) hv hacc (added_withdrawn ha σ _ info)]
    exact iff_of_false (fun hne => hne hthrown) (by simp)

/-- **No exception leaves a message** if and only if it submits no order that fails for want of a window. -/
theorem Handles.returns_iff (hr : Handles σ m r) (h : σ.Ok used) : σ.MessageReturns m ↔ r.escaped = none := by
  have htakes : ∀ {ref shares counted onRisk event}, TakesShares σ ref shares counted onRisk event r → r.escaped = none := by
    rintro ref shares counted onRisk event (_ | _) <;> rfl
  cases hr with
  | addOrderNoMPID hr => exact hr.returns_iff h
  | addOrderMPID hr => exact hr.returns_iff h
  | orderCancel hr => exact iff_of_true trivial (htakes hr)
  | orderExecuted hr => exact iff_of_true trivial (htakes hr)
  | nonPrintable => exact iff_of_true trivial rfl
  | orderExecutedWithPrice _ hr => exact iff_of_true trivial (htakes hr)
  | orderDelete hr => exact iff_of_true trivial (by cases hr <;> rfl)
  | orderReplace hr => exact hr.returns_iff h
  | @other m hm =>
    refine iff_of_true ?_ rfl
    cases m <;> first | exact trivial | cases hm

/-! ### Runs -/

/-- One message more. -/
theorem run_snoc {σ σ' : Shard} {es : List Emitted} {past : List Message} (hrun : σ.run past = .ok (σ', es))
    {m : Message} {r : Handled} (hr : σ'.onMessage m = .ok r) : σ.run (past ++ [m]) = .ok (r.shard, es ++ r.emitted) := by
  induction past generalizing σ es with
  | nil =>
    cases hrun
    rw [List.nil_append, run, hr]
    simp [run, ok_bind]
  | cons x past ih =>
    rw [run] at hrun
    obtain ⟨q, hq, hrun⟩ := bind_eq_ok.mp hrun
    obtain ⟨⟨σ₁, es₁⟩, hrest, hrun⟩ := bind_eq_ok.mp hrun
    cases hrun
    rw [List.cons_append, run, hq, ok_bind, ih hrest, ok_bind, List.append_assoc]

/-- The reference numbers of a prefix are fresh, too. -/
theorem nodup_of_snoc {past : List Message} {m : Message} (h : (newRefs (past ++ [m])).Nodup) : (newRefs past).Nodup := by
  rw [newRefs_append] at h
  exact h.of_append_left

/-- **The induction over runs** from a new sequencer. -/
theorem run_induction {J : List Message → Shard → List Emitted → Prop} (config : Bytes → BookConfig)
    (risk : Option RiskEngine.Config) (hnew : J [] (new config risk) [])
    (hstep : ∀ past m σ es r, (newRefs (past ++ [m])).Nodup → σ.Ok (newRefs past) → J past σ es →
      σ.onMessage m = .ok r → Handles σ m r → J (past ++ [m]) r.shard (es ++ r.emitted)) (ms : List Message)
    (hnd : (newRefs ms).Nodup) :
    ∃ σ es, (new config risk).run ms = .ok (σ, es) ∧ σ.Ok (newRefs ms) ∧ J ms σ es := by
  induction ms using List.reverseRecOn with
  | nil => exact ⟨_, _, rfl, Ok.new config risk, hnew⟩
  | append_singleton past m ih =>
    obtain ⟨σ, es, hrun, hok, hJ⟩ := ih (nodup_of_snoc hnd)
    obtain ⟨r, hr, hh⟩ := hok.onMessage m (fresh_of_nodup hnd)
    refine ⟨r.shard, es ++ r.emitted, run_snoc hrun hr, ?_, hstep past m σ es r hnd hok hJ hr hh⟩
    have hnew : newRefs (past ++ [m]) = newRefs past ++ m.newRef.toList := by
      rw [newRefs_append]
      cases hm : m.newRef <;> simp [newRefs, hm]
    rw [hnew]
    exact hh.ok hok (fresh_of_nodup hnd)

/-- Each message of a run meets a condition on it and on the state that it comes to. -/
def Along (meets : Shard → Message → Prop) (σ : Shard) : List Message → Prop
  | [] => True
  | m :: ms => meets σ m ∧ ∀ r ∈ (σ.onMessage m).toOption, r.shard.Along meets ms

instance (meets : Shard → Message → Prop) [∀ σ m, Decidable (meets σ m)] (σ : Shard) (ms : List Message) :
    Decidable (σ.Along meets ms) := by
  induction ms generalizing σ with
  | nil => exact inferInstanceAs (Decidable True)
  | cons m ms ih =>
    haveI := fun r : Handled => ih r.shard
    exact inferInstanceAs (Decidable (meets σ m ∧ ∀ r ∈ (σ.onMessage m).toOption, r.shard.Along meets ms))

/-- So do those of its prefixes. -/
theorem Along.of_append {meets : Shard → Message → Prop} {σ : Shard} {past ms : List Message}
    (h : σ.Along meets (past ++ ms)) : σ.Along meets past := by
  induction past generalizing σ with
  | nil => trivial
  | cons m past ih => exact ⟨h.1, fun r hr => ih (h.2 r hr)⟩

theorem along_snoc {meets : Shard → Message → Prop} {σ σ' : Shard} {es : List Emitted} {past : List Message}
    (hrun : σ.run past = .ok (σ', es)) (m : Message) :
    σ.Along meets (past ++ [m]) ↔ σ.Along meets past ∧ meets σ' m := by
  induction past generalizing σ es with
  | nil =>
    cases hrun
    simp [Along]
  | cons x past ih =>
    rw [run] at hrun
    obtain ⟨q, hq, hrun⟩ := bind_eq_ok.mp hrun
    obtain ⟨⟨σ₁, es₁⟩, hrest, hrun⟩ := bind_eq_ok.mp hrun
    cases hrun
    have hone : ∀ p : Handled → Prop, (∀ r ∈ (σ.onMessage x).toOption, p r) ↔ p q := by
      intro p
      rw [hq]
      exact ⟨fun h => h q rfl, fun h r hr => Option.some.inj hr ▸ h⟩
    rw [List.cons_append, Along, Along, hone, hone, ih hrest, and_assoc]

/-- **The induction over runs whose messages meet a condition.** -/
theorem run_induction_along {meets : Shard → Message → Prop} {J : List Message → Shard → List Emitted → Prop}
    (config : Bytes → BookConfig) (risk : Option RiskEngine.Config) (hnew : J [] (new config risk) [])
    (hstep : ∀ past m σ es r, (newRefs (past ++ [m])).Nodup → σ.Ok (newRefs past) → J past σ es → meets σ m →
      Handles σ m r → J (past ++ [m]) r.shard (es ++ r.emitted)) (ms : List Message) (hnd : (newRefs ms).Nodup)
    (hmeets : (new config risk).Along meets ms) :
    ∃ σ es, (new config risk).run ms = .ok (σ, es) ∧ σ.Ok (newRefs ms) ∧ J ms σ es := by
  obtain ⟨σ, es, hrun, hok, -, hJ⟩ := run_induction (J := fun past σ es => (new config risk).run past = .ok (σ, es) ∧
    ((new config risk).Along meets past → J past σ es)) config risk ⟨rfl, fun _ => hnew⟩ (by
      rintro past m σ es r hnd hok ⟨hrun, hJ⟩ hr hh
      refine ⟨run_snoc hrun hr, fun halong => ?_⟩
      obtain ⟨hpast, hm⟩ := (along_snoc hrun m).mp halong
      exact hstep past m σ es r hnd hok (hJ hpast) hm hh) ms hnd
  exact ⟨σ, es, hrun, hok, hJ hmeets⟩

/-- Every book keeps the window that it was made with. -/
theorem run_window (config : Bytes → BookConfig) (risk : Option RiskEngine.Config) (ms : List Message)
    (hnd : (newRefs ms).Nodup) : ∃ σ es, (new config risk).run ms = .ok (σ, es) ∧ σ.Ok (newRefs ms) ∧
      ∀ symbol, (σ.books symbol).initialWindow = (config symbol).initialWindow.toInt :=
  run_induction (J := fun _ σ _ => ∀ symbol, (σ.books symbol).initialWindow = (config symbol).initialWindow.toInt)
    config risk (fun _ => rfl)
    (fun _ _ _ _ _ _ hok hJ _ hh symbol => (hh.window hok symbol).trans (hJ symbol)) ms hnd

/-- **Where every window fits, no exception leaves a run.** -/
theorem along_returns (config : Bytes → BookConfig) (risk : Option RiskEngine.Config) {ms : List Message}
    (hnd : (newRefs ms).Nodup) (hfits : ∀ symbol, (config symbol).Fits) :
    (new config risk).Along MessageReturns ms := by
  induction ms using List.reverseRecOn with
  | nil => trivial
  | append_singleton past m ih =>
    obtain ⟨σ, es, hrun, hok, hwindow⟩ := run_window config risk past (nodup_of_snoc hnd)
    refine (along_snoc hrun m).mpr ⟨ih (nodup_of_snoc hnd), ?_⟩
    have hall : ∀ symbol, WindowFits (σ.books symbol).initialWindow := fun symbol => hwindow symbol ▸ hfits symbol
    cases m with
    | addOrderNoMPID m => exact fun _ _ _ _ => hall _
    | addOrderMPID m => exact fun _ _ _ _ => hall _
    | orderReplace m =>
      intro info _ x hx v _ _ _
      obtain ⟨found, s⟩ := x
      cases hrun' : (σ.books info.symbol).cancel m.originalOrderRefNumber with
      | error e =>
        rw [hrun'] at hx
        cases hx
      | ok x =>
        rw [hrun'] at hx
        obtain rfl := Option.some.inj hx
        rw [books_withdrawn, (hok.sound info.symbol).cancel_window hrun']
        exact hall _
    | _ => trivial

/-! ### The routing table -/

/-- What rests under a number for a symbol. -/
def resting (σ : Shard) (symbol : Bytes) (ref : OrderId) : ℕ := restingOf ref (σ.book symbol).orders

/-- **The routing table is complete**, and messages that name an order act on it. -/
structure Routed (σ : Shard) (used : List OrderId) : Prop where
  /-- The table knows every resting order, with its symbol and its side. -/
  entry : ∀ symbol side, ∀ o ∈ (σ.book symbol).side side,
    ∃ info, σ.orderSymbol o.id = some info ∧ info.symbol = symbol ∧ info.side = side
  /-- No number rests for two symbols. -/
  apart : ∀ symbol symbol' ref, ref ∈ (σ.book symbol).ids → ref ∈ (σ.book symbol').ids → symbol = symbol'
  /-- Order Delete removes an order that rests. -/
  deleted : ∀ (m : OrderDelete) symbol, m.orderRefNumber ∈ (σ.book symbol).ids →
    ∃ r, σ.onMessage (.orderDelete m) = .ok r ∧ m.orderRefNumber ∉ (r.shard.book symbol).ids
  /-- Order Cancel takes its shares from an order that rests, or all that it has. -/
  cancelled : ∀ (m : OrderCancel) symbol, ∀ o ∈ (σ.book symbol).orders, o.id = m.orderRefNumber →
    ∃ r, σ.onMessage (.orderCancel m) = .ok r ∧
      r.shard.resting symbol o.id = o.qty - min m.canceledShares.toNat o.qty
  /-- So does Order Executed. -/
  executed : ∀ (m : OrderExecuted) symbol, ∀ o ∈ (σ.book symbol).orders, o.id = m.orderRefNumber →
    ∃ r, σ.onMessage (.orderExecuted m) = .ok r ∧
      r.shard.resting symbol o.id = o.qty - min m.executedShares.toNat o.qty
  /-- So does Order Executed With Price, unless it is marked non-printable. -/
  executed_at : ∀ (m : OrderExecutedWithPrice) symbol, m.printable ≠ 78 → ∀ o ∈ (σ.book symbol).orders,
    o.id = m.orderRefNumber → ∃ r, σ.onMessage (.orderExecutedWithPrice m) = .ok r ∧
      r.shard.resting symbol o.id = o.qty - min m.executedShares.toNat o.qty
  /-- After Order Delete of a number that the table knows, nothing rests under it. -/
  delete_clears : ∀ m : OrderDelete, (σ.orderSymbol m.orderRefNumber).isSome →
    ∃ r, σ.onMessage (.orderDelete m) = .ok r ∧ ∀ symbol, m.orderRefNumber ∉ (r.shard.book symbol).ids
  /-- After Order Replace of one, nothing rests under the old number. -/
  replace_clears : ∀ m : OrderReplace, (σ.orderSymbol m.originalOrderRefNumber).isSome → m.newOrderRefNumber ∉ used →
    ∃ r, σ.onMessage (.orderReplace m) = .ok r ∧ ∀ symbol, m.originalOrderRefNumber ∉ (r.shard.book symbol).ids

/-- Shares leave an order that rests. -/
theorem Ok.resting_takesShares (h : σ.Ok used) {shares : UInt32} {counted : Stats → Stats}
    {onRisk : OrderInfo → RiskEngine → RiskEngine} {event : OrderInfo → MDEvent}
    (hr : TakesShares σ ref shares counted onRisk event r) {symbol : Bytes} {o : Order ℤ OrderId}
    (ho : o ∈ (σ.book symbol).orders) (hid : o.id = ref) :
    r.shard.resting symbol o.id = o.qty - min shares.toNat o.qty := by
  subst hid
  obtain ⟨side, hside⟩ := mem_orders_iff.mp ho
  obtain ⟨info, hi, rfl, -⟩ := h.routed symbol side o hside
  cases hr with
  | unknown hn =>
    rw [hi] at hn
    cases hn
  | known info' s hi' _ hb =>
    obtain rfl : info = info' := Option.some.inj (hi.symm.trans hi')
    have hbook : (((σ.setBook info.symbol s).withRisk (onRisk info)).count counted).book info.symbol =
        ((σ.book info.symbol).reduce o.id shares.toUInt64).2 := by
      rw [← hb]
      exact (book_setBook σ info.symbol info.symbol s).trans (if_pos rfl)
    have horders : ((σ.book info.symbol).reduce o.id shares.toUInt64).2.orders =
        reduceBy o.id shares.toNat (σ.book info.symbol).orders := by
      rw [Book.orders, Book.orders, reduceBy_append, Book.reduce, UInt32.toNat_toUInt64]
    have hnd : ((σ.book info.symbol).orders.map (·.id)).Nodup := (h.sound info.symbol).ids_nodup
    have hacc := restingOf_reduceBy hnd o.id shares.toNat o.id
    rw [if_pos rfl, restingOf_mem hnd ho] at hacc
    rw [resting, hbook, horders]
    omega

/-- Nothing rests under a number that has been withdrawn. -/
theorem Ok.not_mem_withdrawn (h : σ.Ok used) {s : OrderBookV2} (hw : Withdraws σ ref info s) (symbol : Bytes) :
    ref ∉ ((σ.withdrawn ref info s).book symbol).ids := by
  intro hm
  obtain ⟨o, ho, rfl⟩ := List.mem_map.mp hm
  obtain ⟨side, ho⟩ := mem_orders_iff.mp ho
  obtain ⟨info', hi, -⟩ := (h.withdrawn hw).routed symbol side o ho
  have hnone : (σ.withdrawn o.id info s).orderSymbol o.id = none := update_self ..
  rw [hnone] at hi
  cases hi

theorem Ok.not_mem_deletes (h : σ.Ok used) {m : OrderDelete} (hr : Deletes σ m r)
    (hknown : (σ.orderSymbol m.orderRefNumber).isSome) (symbol : Bytes) :
    m.orderRefNumber ∉ (r.shard.book symbol).ids := by
  cases hr with
  | unknown hn =>
    rw [hn] at hknown
    cases hknown
  | known info s hw => exact h.not_mem_withdrawn hw symbol

/-- An order that is new does not put back one that has gone. -/
theorem not_mem_added {id : OrderId} {symbol symbol' : Bytes} {a : AddResult}
    (ha : LimitAdded (σ.books symbol) req a) (hne : id ≠ req.id) (hid : ∀ symbol, id ∉ (σ.book symbol).ids) :
    id ∉ ((σ.afterAdd symbol a).book symbol').ids := by
  rw [book_afterAdd]
  split_ifs with hs
  · intro hm
    obtain ⟨o, ho, rfl⟩ := List.mem_map.mp hm
    obtain ⟨side, ho⟩ := mem_orders_iff.mp ho
    obtain ⟨o', ho', he, -⟩ | ⟨-, -, he⟩ := ha.mem_side ho
    · exact hid symbol (he ▸ List.mem_map_of_mem (mem_side_orders ho'))
    · exact hne he
  · exact hid symbol'

theorem Ok.not_mem_replaces (h : σ.Ok used) {m : OrderReplace} (hr : Replaces σ m r)
    (hknown : (σ.orderSymbol m.originalOrderRefNumber).isSome) (hfresh : m.newOrderRefNumber ∉ used) (symbol : Bytes) :
    m.originalOrderRefNumber ∉ (r.shard.book symbol).ids := by
  have hne : m.originalOrderRefNumber ≠ m.newOrderRefNumber := by
    intro he
    obtain ⟨info, hi⟩ := Option.isSome_iff_exists.mp hknown
    exact hfresh (he ▸ h.used _ _ hi)
  cases hr with
  | unknown hn =>
    rw [hn] at hknown
    cases hknown
  | declined info s v hw => exact h.not_mem_withdrawn hw symbol
  | returned info s v a hw _ _ _ ha =>
    exact not_mem_added (added_withdrawn ha σ m.originalOrderRefNumber info) hne (h.not_mem_withdrawn hw)
  | threw info s v a what hw _ _ _ ha =>
    exact not_mem_added (added_withdrawn ha σ m.originalOrderRefNumber info) hne (h.not_mem_withdrawn hw)
  | escaped info s v a hw _ _ _ ha =>
    exact not_mem_added (added_withdrawn ha σ m.originalOrderRefNumber info) hne (h.not_mem_withdrawn hw)

/-- **Between two messages the routing table is complete.** -/
theorem Ok.isRouted (h : σ.Ok used) : σ.Routed used where
  entry := h.routed
  apart symbol symbol' ref hm hm' := by
    obtain ⟨o, ho, rfl⟩ := List.mem_map.mp hm
    obtain ⟨side, ho⟩ := mem_orders_iff.mp ho
    obtain ⟨info, hi, hs, -⟩ := h.routed symbol side o ho
    rw [← hs, h.symbol_eq hi hm']
  deleted m symbol hm := by
    obtain ⟨o, ho, hid⟩ := List.mem_map.mp hm
    obtain ⟨side, ho⟩ := mem_orders_iff.mp ho
    obtain ⟨info, hi, -⟩ := h.routed symbol side o ho
    obtain ⟨r, hrun, hr⟩ := h.orderDelete m
    exact ⟨r, hrun, h.not_mem_deletes hr (by rw [← hid, hi]; rfl) symbol⟩
  cancelled m symbol o ho hid := by
    obtain ⟨r, hrun, hr⟩ := h.takeShares m.orderRefNumber m.canceledShares _ _ _
    exact ⟨r, hrun, h.resting_takesShares hr ho hid⟩
  executed m symbol o ho hid := by
    obtain ⟨r, hrun, hr⟩ := h.takeShares m.orderRefNumber m.executedShares _ _ _
    exact ⟨r, hrun, h.resting_takesShares hr ho hid⟩
  executed_at m symbol hn o ho hid := by
    obtain ⟨r, hrun, hr⟩ := h.takeShares m.orderRefNumber m.executedShares _ _ _
    exact ⟨r, (if_neg hn).trans hrun, h.resting_takesShares hr ho hid⟩
  delete_clears m hknown := by
    obtain ⟨r, hrun, hr⟩ := h.orderDelete m
    exact ⟨r, hrun, h.not_mem_deletes hr hknown⟩
  replace_clears m hknown hfresh := by
    obtain ⟨r, hrun, hr⟩ := h.orderReplace m hfresh
    exact ⟨r, hrun, h.not_mem_replaces hr hknown hfresh⟩

/-- **At every point of a run the routing table is complete**, whatever the risk engine and the
books have rejected. -/
theorem run_routed (config : Bytes → BookConfig) (risk : Option RiskEngine.Config) {ms : List Message}
    (hnd : (newRefs ms).Nodup) :
    ∃ σ es, (new config risk).run ms = .ok (σ, es) ∧ σ.Routed (newRefs ms) := by
  obtain ⟨σ, es, hrun, hok, -⟩ :=
    run_induction (J := fun _ _ _ => True) config risk trivial (fun _ _ _ _ _ _ _ _ _ _ => trivial) ms hnd
  exact ⟨σ, es, hrun, hok.isRouted⟩

/-! ### Some messages -/

/-- The common header of the messages below. -/
def noHeader : CommonHeader := ⟨0, 0, 0⟩

/-- Add Order for the symbol `AB`, with the MPID `mpid`. -/
def addAB (ref : OrderId) (indicator : UInt8) (shares price : UInt32) (mpid : UInt8) : Message :=
  .addOrderMPID { h := noHeader, orderRefNumber := ref, buySellIndicator := indicator, shares
                  stock := #v[65, 66, space, space, space, space, space, space], price
                  attribution := #v[mpid, space, space, space] }

/-- Order Replace. -/
def replaceBy (ref ref' : OrderId) (shares price : UInt32) : Message :=
  .orderReplace { h := noHeader, originalOrderRefNumber := ref, newOrderRefNumber := ref', shares, price }

/-- Order Delete. -/
def deleteOf (ref : OrderId) : Message := .orderDelete { h := noHeader, orderRefNumber := ref }

/-- Books with room for eight orders. -/
def smallBooks : Bytes → BookConfig := fun _ => ⟨8, 16⟩

/-- A risk engine with the default limits, and no price band. -/
def noBand : RiskEngine.Config := { priceBand := fun _ _ => none }

/-- Two orders that trade, a replacement, and a message for a number that no order has. -/
def fourMessages : List Message :=
  [addAB 1 66 5 100 77, addAB 2 83 3 100 78, replaceBy 1 3 4 101, deleteOf 9]

theorem run_routed_replaced :
    ∃ σ es, (new smallBooks (some noBand)).run fourMessages = .ok (σ, es) ∧ σ.Routed [1, 2, 3] :=
  run_routed smallBooks (some noBand) (show (newRefs fourMessages).Nodup by decide)

end Shard

end MatchingEngine
