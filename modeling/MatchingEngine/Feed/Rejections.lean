import MatchingEngine.Feed.Accounting
import MatchingEngine.Feed.Mirror

/-!
# What a rejection leaves behind

A message that is rejected emits no event. A subscriber stays in sync all the same as long as
the message has changed no book. But an Order Replace has already withdrawn the old order when
the new one is rejected, and an order that a book throws back may have traded before. These
are all the ways to lose a subscriber: `Quiet` says that neither happens, and `run_rejected`
that a rejected message is mirrored if and only if it is quiet.
-/

namespace MatchingEngine

open Foundation Itch Mdfeed Snapshot Function OrderBookV2

/-! ### Books that look alike -/

variable {b b' : Book} {d : OrderId → Option RestingOrder} {req : OrderRequest}

/-- Two books that are shown alike hold the same orders. -/
theorem Shows.mem_iff (h : Shows b d) (h' : Shows b' d) (side : Side) (o : Order ℤ OrderId) :
    o ∈ b.side side ↔ o ∈ b'.side side := by
  rw [h side o, h' side o]

/-- **An order that crosses takes from the best order of the other side.** -/
theorem exists_taken (hnd : b.ids.Nodup) (hq : 0 < req.qty.toNat) (hc : b.crosses req = true) :
    ∃ o ∈ b.side req.side.opposite, o ∉ (b.taken req).side req.side.opposite := by
  have hids : ((b.side req.side.opposite).map (·.id)).Nodup := by
    rw [Book.ids, Book.orders, List.map_append, List.nodup_append] at hnd
    cases req.side with
    | buy => exact hnd.2.1
    | sell => exact hnd.1
  rw [Book.crosses, Book.best] at hc
  rw [Book.taken, side_withSide, Book.take]
  cases hos : b.side req.side.opposite with
  | nil =>
    rw [hos] at hc
    cases hc
  | cons o os =>
    rw [hos] at hc hids
    rw [List.map_cons, List.nodup_cons] at hids
    have hok : req.accepts o.price = true := hc
    have hnot : o ∉ os := fun hm => hids.1 (List.mem_map_of_mem hm)
    refine ⟨o, List.mem_cons_self, ?_⟩
    rcases Nat.lt_or_ge req.qty.toNat o.qty with hlt | hge
    · -- it has lost shares
      rw [fill_cons_gt hq hok hlt, List.mem_cons, not_or]
      refine ⟨fun he => ?_, hnot⟩
      have := congrArg Order.qty he
      simp only at this
      omega
    · -- it has gone
      rw [fill_cons_le hq hok hge]
      intro hm
      have hsuf := fill_rest_suffix Order.id (fun _ _ => rfl) req.accepts (req.qty.toNat - o.qty) os
      exact hids.1 (hsuf.subset (List.mem_map_of_mem hm))

/-- **What a book throws back has changed it** just if it crossed. -/
theorem shows_taken_iff (h : Shows b d) (hnd : b.ids.Nodup) (hq : 0 < req.qty.toNat) :
    Shows (b.taken req) d ↔ b.crosses req = false := by
  constructor
  · intro htaken
    by_contra hc
    obtain ⟨o, ho, hnot⟩ := exists_taken hnd hq (eq_true_of_ne_false hc)
    exact hnot ((h.mem_iff htaken _ o).mp ho)
  · intro hc
    rwa [taken_of_not_crosses hc]

/-- **A withdrawn order has changed its book** just if it rested. -/
theorem shows_cancel_iff (h : Shows b d) (id : OrderId) : Shows (b.cancel id).2 d ↔ id ∉ b.ids := by
  constructor
  · rintro hcancel hm
    obtain ⟨o, ho, rfl⟩ := List.mem_map.mp hm
    obtain ⟨side, ho⟩ := mem_orders_iff.mp ho
    exact (mem_side_cancel.mp ((h.mem_iff hcancel side o).mp ho)).2 rfl
  · intro hid
    rwa [cancel_of_not_mem hid]

/-- Both together. -/
theorem shows_cancel_taken_iff (h : Shows b d) (hnd : b.ids.Nodup) (hq : 0 < req.qty.toNat) (id : OrderId) :
    Shows ((b.cancel id).2.taken req) d ↔ id ∉ b.ids ∧ (b.cancel id).2.crosses req = false := by
  constructor
  · intro htaken
    have hid : id ∉ b.ids := by
      intro hm
      obtain ⟨o, ho, rfl⟩ := List.mem_map.mp hm
      obtain ⟨side, ho⟩ := mem_orders_iff.mp ho
      obtain ⟨o', ho', he, -⟩ := mem_side_taken ((h.mem_iff htaken side o).mp ho)
      exact (mem_side_cancel.mp ho').2 he
    rw [cancel_of_not_mem hid] at htaken ⊢
    exact ⟨hid, (shows_taken_iff h hnd hq).mp htaken⟩
  · rintro ⟨hid, hc⟩
    rw [cancel_of_not_mem hid] at hc ⊢
    exact (shows_taken_iff h hnd hq).mpr hc

/-! ### Messages -/

/-- The number that a message replaces. -/
def Itch.Message.replaced : Message → Option OrderId
  | .orderReplace m => some m.originalOrderRefNumber
  | _ => none

namespace Shard

variable {σ : Shard} {past : List Message} {used : List OrderId} {ref : OrderId} {info : OrderInfo} {m : Message}
  {r : Handled} {bld : Builder}

/-- What the risk engine lets through to a book. -/
def admitted (σ : Shard) (info : OrderInfo) (req : OrderRequest) : Except Ub (Option (OrderBookV2 × OrderRequest)) := do
  let verdict ← σ.verdict req info
  .ok (if verdict.accepted then some (σ.books info.symbol, req) else none)

/-- The call of `OrderBookV2::add` that a message leads to: the book, and the request. -/
def submission (σ : Shard) : Message → Except Ub (Option (OrderBookV2 × OrderRequest))
  | .addOrderNoMPID m => σ.admitted (infoOf m []) (limitRequest m.orderRefNumber (infoOf m []) m.price m.shares)
  | .addOrderMPID m =>
    let info := infoOf m.toAddOrderNoMPID m.attribution.str
    σ.admitted info (limitRequest m.orderRefNumber info m.price m.shares)
  | .orderReplace m =>
    match σ.orderSymbol m.originalOrderRefNumber with
    | none => .ok none
    | some info => do
      let (_, book) ← (σ.books info.symbol).cancel m.originalOrderRefNumber
      (σ.withdrawn m.originalOrderRefNumber info book).admitted info (replaceRequest m info)
  | _ => .ok none

theorem admitted_eq {v : RiskEngine.Verdict} (hv : σ.verdict req info = .ok v) :
    σ.admitted info req = .ok (if v.accepted then some (σ.books info.symbol, req) else none) := by
  rw [admitted, hv, ok_bind]

/-- **A quiet message**: no order rests under the number that it replaces, and the order that it
submits, if the risk engine lets it through, crosses nothing. -/
def Quiet (σ : Shard) (m : Message) : Prop :=
  (∀ ref ∈ m.replaced, ∀ symbol, ref ∉ (σ.book symbol).ids) ∧
    ∀ book req, σ.submission m = .ok (some (book, req)) → book.book.crosses req = false

/-- Where one book may have changed, that one decides. -/
theorem InSync.iff_shows (h : InSync bld σ) (σ' : Shard) (symbol : Bytes)
    (hbook : ∀ symbol', symbol' ≠ symbol → σ'.book symbol' = σ.book symbol') :
    InSync bld σ' ↔ Shows (σ'.book symbol) (bld.shown symbol) := by
  constructor
  · exact fun h' => h' symbol
  · intro hs symbol'
    by_cases he : symbol' = symbol
    · rw [he]
      exact hs
    · rw [hbook symbol' he]
      exact h symbol'

/-- A message whose rejections are not counted is not rejected. -/
theorem Counts.not_rejected (h : Counts σ r) (hsame : r.shard.stats.addRejected + r.shard.stats.riskRejected =
    σ.stats.addRejected + σ.stats.riskRejected) : ¬ r.Rejected := by
  rintro ⟨rep, hrep, htype⟩
  have hpos : 0 < reported .reject r.emitted := by
    rw [reported, List.countP_pos_iff]
    exact ⟨_, hrep, decide_eq_true htype⟩
  have := h.rejects
  omega

/-- A message that reports nothing is not rejected. -/
theorem not_rejected_of_none (h : ∀ rep, .report rep ∉ r.emitted) : ¬ r.Rejected := fun ⟨rep, hrep, _⟩ => h rep hrep

/-- An order that is thrown back had shares left. -/
theorem qty_pos_of_left {b : Book} (h : 0 < (b.take req).left) : 0 < req.qty.toNat :=
  h.trans_le (fill_left_le ..)

/-- **An Add Order that is rejected.** -/
theorem Adds.rejected (hok : σ.Ok used) {timestampNs : UInt64} (hr : Adds σ info req timestampNs r) (hrej : r.Rejected)
    (h : InSync bld σ) (hsub : σ.submission m = σ.admitted info req) (hrep : m.replaced = none) :
    eventsOf r.emitted = [] ∧ (InSync bld r.shard ↔ σ.Quiet m) := by
  have hfirst : ∀ ref ∈ m.replaced, ∀ symbol, ref ∉ (σ.book symbol).ids := by simp [hrep]
  have hcounts := hr.counts
  cases hr with
  | declined v hv hacc =>
    refine ⟨rfl, iff_of_true (fun symbol => h symbol) ⟨hfirst, fun book req' hs => ?_⟩⟩
    rw [hsub, admitted_eq hv, hacc] at hs
    cases hs
  | returned => exact absurd hrej (hcounts.not_rejected rfl)
  | threw v a what hv hacc hrun ha hthrown =>
    obtain ⟨-, hleft, hbook⟩ := ha.threw _ hthrown
    have hafter : ∀ symbol, (((((σ.setOrder req.id info).afterAdd info.symbol a).eraseOrder req.id).count fun s =>
        { s with addRejected := s.addRejected + 1 }).book symbol) =
          if symbol = info.symbol then a.book.book else σ.book symbol :=
      fun symbol => book_afterAdd (σ.setOrder req.id info) info.symbol symbol a
    refine ⟨rfl, ?_⟩
    rw [InSync.iff_shows h _ info.symbol fun symbol hne => (hafter symbol).trans (if_neg hne), hafter, if_pos rfl, hbook,
      show (σ.books info.symbol).book = σ.book info.symbol from rfl,
      shows_taken_iff (h info.symbol) (hok.sound info.symbol).ids_nodup (qty_pos_of_left hleft)]
    constructor
    · refine fun hc => ⟨hfirst, fun book req' hs => ?_⟩
      rw [hsub, admitted_eq hv, if_pos hacc] at hs
      obtain ⟨rfl, rfl⟩ := Prod.mk.inj (Option.some.inj (Except.ok.inj hs))
      exact hc
    · exact fun hq => hq.2 _ _ (by rw [hsub, admitted_eq hv, if_pos hacc])
  | escaped => exact absurd hrej (not_rejected_of_none (by simp))

/-- What an Order Replace submits, once the old order has left. -/
theorem submission_replace {m : OrderReplace} {s : OrderBookV2} (hw : Withdraws σ m.originalOrderRefNumber info s) :
    σ.submission (.orderReplace m) = (σ.withdrawn m.originalOrderRefNumber info s).admitted info (replaceRequest m info) := by
  obtain ⟨found, hrun⟩ := hw.cancelled
  rw [submission, hw.known]
  dsimp only
  rw [hrun, ok_bind]

/-- The old order rests, if it does, in the book of its symbol. -/
theorem Ok.replaced_iff (hok : σ.Ok used) {m : OrderReplace} (hi : σ.orderSymbol m.originalOrderRefNumber = some info) :
    (∀ ref ∈ (Message.orderReplace m).replaced, ∀ symbol, ref ∉ (σ.book symbol).ids) ↔
      m.originalOrderRefNumber ∉ (σ.book info.symbol).ids := by
  constructor
  · exact fun hn => hn _ rfl info.symbol
  · intro hn ref href symbol hm
    obtain rfl := Option.mem_some_iff.mp href
    rw [hok.symbol_eq hi hm] at hm
    exact hn hm

/-- **An Order Replace that is rejected.** -/
theorem Replaces.rejected (hok : σ.Ok used) {m : OrderReplace} (hr : Replaces σ m r) (hrej : r.Rejected)
    (h : InSync bld σ) : eventsOf r.emitted = [] ∧ (InSync bld r.shard ↔ σ.Quiet (.orderReplace m)) := by
  have hcounts := hr.counts
  cases hr with
  | unknown => exact absurd hrej (hcounts.not_rejected rfl)
  | returned => exact absurd hrej (hcounts.not_rejected rfl)
  | declined info s v hw hv hacc =>
    refine ⟨rfl, ?_⟩
    have hafter := book_withdrawn σ m.originalOrderRefNumber info s
    have hiff := InSync.iff_shows h (σ.withdrawn m.originalOrderRefNumber info s) info.symbol fun symbol hne =>
      (hafter symbol).trans (if_neg hne)
    rw [hafter, if_pos rfl, hw.book, shows_cancel_iff (h info.symbol)] at hiff
    refine hiff.trans ?_
    rw [Quiet, hok.replaced_iff hw.known]
    refine ⟨fun hn => ⟨hn, fun book req' hs => ?_⟩, fun hq => hq.1⟩
    rw [submission_replace hw, admitted_eq hv, hacc] at hs
    cases hs
  | threw info s v a what hw hv hacc hrun ha hthrown =>
    obtain ⟨-, hleft, hbook⟩ := ha.threw _ hthrown
    refine ⟨rfl, ?_⟩
    have hafter : ∀ symbol, ((σ.withdrawn m.originalOrderRefNumber info s).afterAdd info.symbol a).book symbol =
        if symbol = info.symbol then a.book.book else σ.book symbol := by
      intro symbol
      rw [book_afterAdd, book_withdrawn]
      split_ifs <;> rfl
    have hiff := InSync.iff_shows h ((σ.withdrawn m.originalOrderRefNumber info s).afterAdd info.symbol a)
      info.symbol fun symbol hne => (hafter symbol).trans (if_neg hne)
    rw [hafter, if_pos rfl, hbook, hw.book, shows_cancel_taken_iff (h info.symbol) (hok.sound info.symbol).ids_nodup
      (qty_pos_of_left hleft), ← hw.book] at hiff
    refine hiff.trans ?_
    rw [Quiet, hok.replaced_iff hw.known]
    refine and_congr_right fun _ => ?_
    rw [submission_replace hw, admitted_eq hv, if_pos hacc, books_withdrawn]
    constructor
    · intro hc book req' hs
      obtain ⟨rfl, rfl⟩ := Prod.mk.inj (Option.some.inj (Except.ok.inj hs))
      exact hc
    · exact fun hq => hq _ _ rfl
  | escaped => exact absurd hrej (not_rejected_of_none (by simp))

/-- **A message that is rejected** is mirrored if and only if it is quiet. -/
theorem Handles.rejected (hr : Handles σ m r) (hok : σ.Ok used) (hrej : r.Rejected) (h : InSync bld σ) :
    eventsOf r.emitted = [] ∧ (InSync bld r.shard ↔ σ.Quiet m) := by
  have htakes : ∀ {ref shares counted onRisk event}, ¬ TakesShares σ ref shares counted onRisk event r := by
    rintro ref shares counted onRisk event (_ | _)
    · exact not_rejected_of_none (by simp) hrej
    · exact not_rejected_of_none (by simp) hrej
  cases hr with
  | addOrderNoMPID hr => exact hr.rejected hok hrej h rfl rfl
  | addOrderMPID hr => exact hr.rejected hok hrej h rfl rfl
  | orderCancel hr => exact absurd hr htakes
  | orderExecuted hr => exact absurd hr htakes
  | nonPrintable => exact absurd hrej (not_rejected_of_none (by simp))
  | orderExecutedWithPrice _ hr => exact absurd hr htakes
  | orderDelete hr => exact absurd hrej (hr.counts.not_rejected (by cases hr <;> rfl))
  | orderReplace hr => exact hr.rejected hok hrej h
  | other => exact absurd hrej (not_rejected_of_none (by simp))

/-- **When the feed mirrors a rejected message**: in every state that a run leads to, a builder in sync
is in sync again after a message that is rejected if and only if the message is quiet. -/
theorem run_rejected (config : Bytes → BookConfig) (risk : Option RiskEngine.Config) {past : List Message} {m : Message}
    (hnd : (newRefs (past ++ [m])).Nodup) :
    ∃ σ es r, (new config risk).run past = .ok (σ, es) ∧ σ.onMessage m = .ok r ∧
      ∀ bld, InSync bld σ → r.Rejected →
        ∀ seq, (InSync (bld.applyAll seq (eventsOf r.emitted)) r.shard ↔ σ.Quiet m) := by
  obtain ⟨σ, es, hrun, hok, -⟩ :=
    run_induction (J := fun _ _ _ => True) config risk trivial (fun _ _ _ _ _ _ _ _ _ _ => trivial) past (nodup_of_snoc hnd)
  obtain ⟨r, hr, hh⟩ := hok.onMessage m (fresh_of_nodup hnd)
  refine ⟨σ, es, r, hrun, hr, fun bld hsync hrej seq => ?_⟩
  obtain ⟨hnone, hiff⟩ := hh.rejected hok hrej hsync
  rw [hnone]
  exact hiff

/-- An order that crosses nothing, at a price that no book reaches. -/
theorem run_rejected_far :
    ∃ σ es r, (new smallBooks none).run [addAB 1 66 5 100 77] = .ok (σ, es) ∧
      σ.onMessage (addAB 2 83 5 4000000000 78) = .ok r ∧
        ∀ bld, InSync bld σ → r.Rejected →
          ∀ seq, (InSync (bld.applyAll seq (eventsOf r.emitted)) r.shard ↔ σ.Quiet (addAB 2 83 5 4000000000 78)) :=
  run_rejected smallBooks none (by decide)

/-- **A subscriber is lost**: an order rests, and the risk engine declines the order that replaces it. -/
theorem run_rejected_lost :
    ∃ σ es r, (new smallBooks (some noBand)).run [addAB 1 66 5 100 77] = .ok (σ, es) ∧
      σ.onMessage (replaceBy 1 2 1000001 100) = .ok r ∧ r.Rejected ∧
        ∃ bld, InSync bld σ ∧ ∀ seq, ¬ InSync (bld.applyAll seq (eventsOf r.emitted)) r.shard := by
  have hok := Ok.new smallBooks (some noBand)
  have hcheck : ((new smallBooks (some noBand)).onMessage (addAB 1 66 5 100 77)).toOption.any (fun q =>
      !q.emitted.any (·.reports .reject) && decide (1 ∈ (q.shard.book [65, 66]).ids) &&
        (q.shard.onMessage (replaceBy 1 2 1000001 100)).toOption.any fun r => r.emitted.any (·.reports .reject)) = true := by
    decide
  obtain ⟨q, hq, hh⟩ := hok.onMessage (addAB 1 66 5 100 77) (by simp)
  have hok' := hh.ok hok (by simp)
  obtain ⟨r, hr, hh'⟩ := hok'.onMessage (replaceBy 1 2 1000001 100) (by simp [Message.newRef, addAB, replaceBy])
  have hrun := run_snoc (show (new smallBooks (some noBand)).run [] = .ok (_, []) from rfl) hq
  rw [hq] at hcheck
  simp only [Except.toOption, Option.any_some, hr, Bool.and_eq_true, decide_eq_true_eq] at hcheck
  obtain ⟨⟨hacc, hrests⟩, hrej⟩ := hcheck
  have hrejected : ∀ es : List Emitted, es.any (·.reports .reject) = true ↔ ∃ rep, .report rep ∈ es ∧ rep.type = .reject := by
    intro es
    rw [List.any_eq_true]
    constructor
    · rintro ⟨e, he, hrep⟩
      cases e with
      | event e => cases hrep
      | report rep => exact ⟨rep, he, of_decide_eq_true hrep⟩
    · rintro ⟨rep, he, hrep⟩
      exact ⟨_, he, decide_eq_true hrep⟩
  have hnot : ¬ q.Rejected := by
    rw [Handled.Rejected, ← hrejected]
    simpa using hacc
  have hsync := hh.inSync hok (by simp) (InSync.new smallBooks (some noBand)) hnot 1
  refine ⟨q.shard, _, r, hrun, hr, (hrejected _).mp hrej, _, hsync, fun seq => ?_⟩
  obtain ⟨hnone, hiff⟩ := hh'.rejected hok' ((hrejected _).mp hrej) hsync
  rw [hnone]
  -- the order that it replaces still rests in what is shown
  exact fun hs => (hiff.mp hs).1 1 rfl _ hrests

end Shard

end MatchingEngine
