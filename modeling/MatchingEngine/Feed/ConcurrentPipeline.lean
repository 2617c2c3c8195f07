import MatchingEngine.Feed.BinaryFile
import MatchingEngine.Feed.Sharding
import MatchingEngine.Foundation.FairDispatch
import Mathlib.Algebra.BigOperators.Fin
import Mathlib.Algebra.BigOperators.Group.Finset.Piecewise
import Mathlib.Data.Finset.Card

/-!
# The concurrent pipeline on a file

`main` of `cpp/feed/tests/test_concurrent_sharded_pipeline.cpp`. The messages of a historical file go
through one shard, and then through the router and the workers of `Feed.Sharding`; and the
program compares what has come of it (`Expectations`). Under every fair schedule the threads
come to an end, and whenever they have, the program finds what it expects
(`concurrent_passes`). It compares best prices and numbers of events only; the books are the same
altogether, and what the workers publish is what one shard publishes, in another order.

A worker makes a book when `book_for` is first asked for its symbol, and that is in the
handler of an Add Order message: the other handlers ask for symbols of orders that were added.
-/

namespace MatchingEngine

open Foundation Itch Mdfeed Function

variable {n : ℕ}

/-! ### What the program compares -/

/-- `struct TrueState`. -/
structure Concurrent.TrueState where
  /-- `has_bid`. -/
  hasBid : Bool
  /-- `has_ask`. -/
  hasAsk : Bool
  /-- `best_bid`. -/
  bestBid : ℤ
  /-- `best_ask`. -/
  bestAsk : ℤ
  deriving DecidableEq

/-- The state of a book that is compared. -/
def OrderBookV2.trueState (s : OrderBookV2) : Except Ub Concurrent.TrueState := do
  let bestBid ← if s.hasBid then s.bestBid else .ok 0
  let bestAsk ← if s.hasAsk then s.bestAsk else .ok 0
  .ok ⟨s.hasBid, s.hasAsk, bestBid, bestAsk⟩

/-- It is a call of `md_cb`. -/
def Emitted.isEvent : Emitted → Bool
  | .report _ => false
  | .event _ => true

/-- The symbols that a book has been made for, when these messages have been handled. -/
def madeBooks (ms : List Message) : Finset Bytes := (ms.filterMap Message.addedSymbol).toFinset

/-- The messages that a worker is given. -/
def partOf (shardFor : Bytes → Fin (n + 1)) (capacity : ℕ) (ms : List Message) (k : Fin (n + 1)) : List Message :=
  (pipeline shardFor capacity).part k (fun _ => none) ms

/-- **What the program expects** of the one shard, and of the workers. -/
structure Expectations (shardFor : Bytes → Fin (n + 1)) (capacity : ℕ) (config : Bytes → BookConfig)
    (risk : Option RiskEngine.Config) (ms : List Message) (one : Worker) (w : Fin (n + 1) → Worker) : Prop where
  /-- A worker has handled the messages that it was given. -/
  handled : ∀ k, (partOf shardFor capacity ms k).foldlM Worker.onMessage ⟨.new config risk, []⟩ = some (w k)
  /-- `duplicate_symbol_across_shards == 0`. -/
  duplicates : ∀ j k, j ≠ k →
    Disjoint (madeBooks (partOf shardFor capacity ms j)) (madeBooks (partOf shardFor capacity ms k))
  /-- `reconstructed.size() == ref_shards.size()`. -/
  size : ∑ k, (madeBooks (partOf shardFor capacity ms k)).card = (madeBooks ms).card
  /-- The counters, each summed over the shards. -/
  stats : ∑ k, (w k).shard.stats = one.shard.stats
  /-- `agg_md_events == ref_md_events`. -/
  events : ∑ k, (w k).emitted.countP Emitted.isEvent = one.emitted.countP Emitted.isEvent
  /-- `mismatches == 0`. -/
  mismatches : ∀ symbol ∈ madeBooks ms, ∃ k state, symbol ∈ madeBooks (partOf shardFor capacity ms k) ∧
    ((w k).shard.books symbol).trueState = .ok state ∧ (one.shard.books symbol).trueState = .ok state

/-! ### The books that are made -/

variable {shardFor : Bytes → Fin (n + 1)} {capacity : ℕ} {routes : Routes} {k : Fin (n + 1)} {m : Message} {ms : List Message}
  {symbol : Bytes}

/-- The order that a message adds goes to the shard of its symbol. -/
theorem route_addedSymbol (h : m.addedSymbol = some symbol) : ((pipeline shardFor capacity).route routes m).1 = shardFor symbol := by
  cases m with
  | addOrderNoMPID m =>
    obtain rfl := Option.some.inj h
    rfl
  | addOrderMPID m =>
    obtain rfl := Option.some.inj h
    rfl
  | _ => cases h

theorem mem_addedSymbols_part : symbol ∈ ((pipeline shardFor capacity).part k routes ms).filterMap Message.addedSymbol ↔
    symbol ∈ ms.filterMap Message.addedSymbol ∧ shardFor symbol = k := by
  induction ms generalizing routes with
  | nil => simp [Dispatch.Program.part]
  | cons m ms ih =>
    rw [Dispatch.Program.part, List.filterMap_append, List.mem_append, ih]
    cases hm : m.addedSymbol with
    | none =>
      rw [List.filterMap_cons_none hm]
      have hnone : symbol ∉ List.filterMap Message.addedSymbol
          (if ((pipeline shardFor capacity).route routes m).1 = k then [m] else []) := by
        split_ifs <;> simp [hm]
      exact or_iff_right hnone
    | some symbol' =>
      rw [List.filterMap_cons_some hm, List.mem_cons, route_addedSymbol hm]
      by_cases hk : shardFor symbol' = k
      · rw [if_pos hk, List.filterMap_cons_some hm, List.filterMap_nil, List.mem_singleton]
        constructor
        · rintro (rfl | ⟨hmem, hs⟩)
          · exact ⟨.inl rfl, hk⟩
          · exact ⟨.inr hmem, hs⟩
        · rintro ⟨rfl | hmem, hs⟩
          · exact .inl rfl
          · exact .inr ⟨hmem, hs⟩
      · rw [if_neg hk, List.filterMap_nil]
        constructor
        · rintro (hmem | ⟨hmem, hs⟩)
          · cases hmem
          · exact ⟨.inr hmem, hs⟩
        · rintro ⟨rfl | hmem, hs⟩
          · exact absurd hs hk
          · exact .inr ⟨hmem, hs⟩

/-- **A worker makes the books** of the symbols that its shard owns. -/
theorem madeBooks_partOf (shardFor : Bytes → Fin (n + 1)) (capacity : ℕ) (ms : List Message) (k : Fin (n + 1)) :
    madeBooks (partOf shardFor capacity ms k) = (madeBooks ms).filter (shardFor · = k) := by
  ext symbol
  rw [madeBooks, partOf, List.mem_toFinset, mem_addedSymbols_part, Finset.mem_filter, madeBooks, List.mem_toFinset]

/-! ### The events that are published -/

/-- A list, taken apart. -/
theorem sum_countP_filter {α : Type*} (g : α → Fin (n + 1)) (p : α → Bool) (xs : List α) :
    ∑ k, (xs.filter fun x => g x = k).countP p = xs.countP p := by
  induction xs with
  | nil => simp
  | cons x xs ih =>
    have hcons : ∀ k, ((x :: xs).filter fun x => g x = k).countP p =
        (xs.filter fun x => g x = k).countP p + if k = g x then (if p x then 1 else 0) else 0 := by
      intro k
      by_cases hk : g x = k
      · rw [List.filter_cons_of_pos (by simpa using hk), List.countP_cons, if_pos hk.symm]
      · rw [List.filter_cons_of_neg (by simpa using hk), if_neg (Ne.symm hk)]
        rfl
    rw [Finset.sum_congr rfl fun k _ => hcons k, Finset.sum_add_distrib, ih, Finset.sum_ite_eq', if_pos (Finset.mem_univ _),
      List.countP_cons]

/-- A shard emits what one shard emits for the symbols that it owns, in some order. -/
theorem SplitEmitted.perm {es : List Emitted} {w : Fin (n + 1) → List Emitted} (h : SplitEmitted shardFor es w)
    (k : Fin (n + 1)) : (w k).Perm (es.filter fun e => shardFor e.symbol = k) := by
  have hcount : ∀ (e : Emitted) (xs : List Emitted), (forSymbol e.symbol xs).count e = xs.count e := fun e xs =>
    List.count_filter (by simp)
  refine List.perm_iff_count.mpr fun e => ?_
  rw [← hcount e (w k)]
  by_cases hk : shardFor e.symbol = k
  · rw [List.count_filter (by simpa using hk), ← hk, h.owned, hcount]
  · rw [h.foreign e.symbol k (Ne.symm hk), List.count_nil, eq_comm, List.count_eq_zero]
    intro hmem
    exact hk (by simpa using (List.mem_filter.mp hmem).2)

/-- **The shards together emit what one shard emits**, in some order. -/
theorem SplitEmitted.perm_flatMap {es : List Emitted} {w : Fin (n + 1) → List Emitted} (h : SplitEmitted shardFor es w) :
    ((List.finRange (n + 1)).flatMap w).Perm es := by
  refine List.perm_iff_count.mpr fun e => ?_
  calc ((List.finRange (n + 1)).flatMap w).count e
      = ∑ k, (w k).count e := by rw [List.count_flatMap, Fin.sum_univ_def]; rfl
    _ = ∑ k, (es.filter fun e => shardFor e.symbol = k).countP (· == e) :=
        Finset.sum_congr rfl fun k _ => (h.perm k).count_eq e
    _ = es.count e := sum_countP_filter _ _ _

/-! ### The program -/

variable {config : Bytes → BookConfig} {risk : Option RiskEngine.Config}

/-- A book that is sound has a state to compare. -/
theorem Sound.exists_trueState {s : OrderBookV2} (h : Sound s) : ∃ state, s.trueState = .ok state := by
  rw [OrderBookV2.trueState, h.settled.bestBid_eq, h.settled.bestAsk_eq]
  split_ifs
  · exact ⟨_, rfl⟩
  · exact ⟨_, rfl⟩
  · exact ⟨_, rfl⟩
  · exact ⟨_, rfl⟩

/-- **What one shard and the shards together have come to** is what the program expects. -/
theorem Together.expectations {one : Worker} {w : Fin (n + 1) → Worker} (h : Together shardFor capacity config risk ms one w) :
    Expectations shardFor capacity config risk ms one w where
  handled := h.parts
  duplicates j k hjk := by
    rw [madeBooks_partOf, madeBooks_partOf, Finset.disjoint_filter]
    rintro symbol - rfl
    exact hjk
  size := by
    rw [Finset.card_eq_sum_card_fiberwise (f := shardFor) (t := Finset.univ) fun _ _ => Finset.mem_coe.mpr (Finset.mem_univ _)]
    exact Finset.sum_congr rfl fun k _ => by rw [madeBooks_partOf]
  stats := h.split.stats
  events := by
    rw [Finset.sum_congr rfl fun k _ => (h.emitted.perm k).countP_eq Emitted.isEvent]
    exact sum_countP_filter _ _ _
  mismatches symbol hsymbol := by
    obtain ⟨state, hstate⟩ := (h.ok.sound symbol).exists_trueState
    refine ⟨shardFor symbol, state, ?_, ?_, hstate⟩
    · rw [madeBooks_partOf]
      exact Finset.mem_filter.mpr ⟨hsymbol, rfl⟩
    · rwa [← (h.split.owned symbol).book]

/-- What the threads have come to, turn after turn. -/
def concurrent (shardFor : Bytes → Fin (n + 1)) (capacity : ℕ) (config : Bytes → BookConfig) (risk : Option RiskEngine.Config)
    (ms : List Message) (turns : ℕ → Dispatch.Turn (Fin (n + 1))) (t : ℕ) :
    Dispatch.State (Fin (n + 1)) Message Routes Worker :=
  statesOf (pipeline shardFor capacity).step (pipelineStart n config risk ms) turns t

/-- **The program passes**, whatever file it is given whose numbers are not used twice and whose symbols are plain:
under every fair schedule all workers leave, and when they have, it finds what it expects. More than that, the worker
of a symbol has the book that one shard has, and the others have no order of it; and the workers together have emitted
what one shard emits. The window of a book, which is 200 there, is one that a vector can have. -/
theorem concurrent_passes (shardFor : Bytes → Fin (n + 1)) (hcap : 0 < capacity) (config : Bytes → BookConfig)
    (hfits : ∀ symbol, (config symbol).Fits) (risk : Option RiskEngine.Config) {f : Bytes} {limit : ℕ}
    (hnd : (newRefs (fileMessages limit f)).Nodup) (hplain : ∀ m ∈ fileMessages limit f, m.PlainSymbol)
    {turns : ℕ → Dispatch.Turn (Fin (n + 1))} (hfair : FairSchedule turns) :
    ∃ ms one, BinaryFileReader.messages limit ⟨f⟩ = .ok ms ∧
      (Shard.new config risk).run ms = .ok (one.shard, one.emitted) ∧
      (∃ t, ∀ k, (concurrent shardFor capacity config risk ms turns t).worker k = .left) ∧
      ∀ t, (∀ k, (concurrent shardFor capacity config risk ms turns t).worker k = .left) →
        let w := (concurrent shardFor capacity config risk ms turns t).state
        Expectations shardFor capacity config risk ms one w ∧ SameResults shardFor config one w ∧
          ((List.finRange (n + 1)).flatMap fun k => (w k).emitted).Perm one.emitted := by
  have hret := Shard.along_returns config risk hnd hfits
  obtain ⟨one, w, h⟩ := exists_together shardFor capacity config risk hnd hplain hret
  have hall := (handles_part_iff shardFor capacity config risk hnd hplain).mpr hret
  refine ⟨fileMessages limit f, one, messages_ok limit f, h.run, Dispatch.fair_finishes hcap hall hfair, fun t hleft => ?_⟩
  have hinv : Dispatch.Inv (pipeline shardFor capacity) (fun _ => none) (fun _ => ⟨.new config risk, []⟩)
      (fileMessages limit f) (concurrent shardFor capacity config risk (fileMessages limit f) turns t) :=
    statesOf_inv (fun _ turn h => h.step turn) (Dispatch.inv_new ..) t
  have hw : (concurrent shardFor capacity config risk (fileMessages limit f) turns t).state = w := by
    funext k
    exact Option.some.inj ((hinv.finished hleft k).symm.trans (h.parts k))
  dsimp only
  rw [hw]
  exact ⟨h.expectations, h.sameResults, h.emitted.perm_flatMap⟩

/-- The threads take turns, one after the other. -/
def oneByOne (t : ℕ) : Dispatch.Turn (Fin 2) :=
  match t % 3 with
  | 0 => .router
  | 1 => .worker ⟨0, by decide⟩
  | _ => .worker ⟨1, by decide⟩

theorem fair_oneByOne : FairSchedule oneByOne := by
  intro turn
  rw [Filter.frequently_atTop]
  intro t
  cases turn with
  | router => exact ⟨3 * t, by omega, by simp [oneByOne]⟩
  | worker k =>
    revert k
    rw [Fin.forall_fin_two]
    exact ⟨⟨3 * t + 1, by omega, by simp [oneByOne]⟩, ⟨3 * t + 2, by omega, by simp [oneByOne]⟩⟩

/-- A file of six messages, and rings that hold one. -/
theorem concurrent_passes_two :
    ∃ ms one, BinaryFileReader.messages 100 ⟨writeFile twoSymbols⟩ = .ok ms ∧
      (Shard.new Shard.smallBooks (some Shard.noBand)).run ms = .ok (one.shard, one.emitted) ∧
      (∃ t, ∀ k, (concurrent shardOfAB 1 Shard.smallBooks (some Shard.noBand) ms oneByOne t).worker k = .left) ∧
      ∀ t, (∀ k, (concurrent shardOfAB 1 Shard.smallBooks (some Shard.noBand) ms oneByOne t).worker k = .left) →
        let w := (concurrent shardOfAB 1 Shard.smallBooks (some Shard.noBand) ms oneByOne t).state
        Expectations shardOfAB 1 Shard.smallBooks (some Shard.noBand) ms one w ∧
          SameResults shardOfAB Shard.smallBooks one w ∧
          ((List.finRange 2).flatMap fun k => (w k).emitted).Perm one.emitted := by
  have hread : fileMessages 100 (writeFile twoSymbols) = twoSymbols := fileMessages_writeFile (by decide) 100
  exact concurrent_passes shardOfAB Nat.one_pos Shard.smallBooks (fun _ => show WindowFits (16 : Int64).toInt by decide)
    (some Shard.noBand) (by rw [hread]; decide) (by rw [hread]; decide) fair_oneByOne

end MatchingEngine
