import MatchingEngine.Feed.Independence
import MatchingEngine.Foundation.Dispatch

/-!
# Sharding by symbol

`cpp/feed/tests/test_concurrent_sharded_pipeline.cpp`: a router gives each message to the shard
that owns its symbol, through a ring buffer, and the worker of the shard handles it with a
`Sequencer`, books and a `RiskEngine` of its own. The threads are those of `Foundation.Dispatch`,
with `pipeline` as what they compute, and a ring buffer is the bounded queue that
`System.fifo_run` says it is.

**Sharding changes nothing** (`sharded_results`): when all workers have left, the shards together
have what one shard would have that handles all messages. The router remembers more than a
sequencer, which forgets the orders that risk or the book have rejected. It need not remember the
same: it is enough that it knows what the sequencer knows (`Covers`), since a message for
an order that no shard knows is counted as `unrouted` by whichever shard is given it.
-/

namespace MatchingEngine

open Foundation Itch Mdfeed Function

/-! ### The threads -/

/-- `routes`: the symbols of the orders that the router knows. -/
abbrev Routes := OrderId → Option Bytes

/-- `route_symbol_for`, with the table that it leaves behind. -/
def routeSymbolFor (m : Message) (routes : Routes) : Option Bytes × Routes :=
  match m with
  | .addOrderNoMPID m => (some m.stock.str, update routes m.orderRefNumber (some m.stock.str))
  | .addOrderMPID m => (some m.stock.str, update routes m.orderRefNumber (some m.stock.str))
  | .orderCancel m => (routes m.orderRefNumber, routes)
  | .orderExecuted m => (routes m.orderRefNumber, routes)
  | .orderExecutedWithPrice m => (routes m.orderRefNumber, routes)
  | .orderDelete m =>
    match routes m.orderRefNumber with
    | none => (none, routes)
    | some sym => (some sym, update routes m.orderRefNumber none)
  | .orderReplace m =>
    match routes m.originalOrderRefNumber with
    | none => (none, routes)
    | some sym =>
      (some sym, update (update routes m.originalOrderRefNumber none) m.newOrderRefNumber (some sym))
  | _ => (none, routes)

variable {n : ℕ}

/-- The shard of a message: that of its symbol, and shard 0 where the symbol is not known. -/
def shardOf (shardFor : Bytes → Fin (n + 1)) (sym : Option Bytes) : Fin (n + 1) :=
  match sym with
  | some sym => shardFor sym
  | none => 0

/-- What a worker has: its shard, and what the callbacks have been called with. -/
structure Worker where
  /-- The sequencer with its books and its risk engine. -/
  shard : Shard
  /-- The calls of the callbacks. -/
  emitted : List Emitted

/-- A worker's call of `on_message`. An exception ends the worker. -/
def Worker.onMessage (w : Worker) (m : Message) : Option Worker :=
  match w.shard.onMessage m with
  | .ok r => if r.escaped = none then some ⟨r.shard, w.emitted ++ r.emitted⟩ else none
  | .error _ => none

/-- What the router and the workers compute. -/
def pipeline (shardFor : Bytes → Fin (n + 1)) (capacity : ℕ) :
    Dispatch.Program (Fin (n + 1)) Message Routes Worker where
  route routes m := (shardOf shardFor (routeSymbolFor m routes).1, (routeSymbolFor m routes).2)
  handle := Worker.onMessage
  capacity := capacity

/-- Before the first message: the router knows no order, and every worker has a new shard. -/
def pipelineStart (n : ℕ) (config : Bytes → BookConfig) (risk : Option RiskEngine.Config) (ms : List Message) :
    Dispatch.State (Fin (n + 1)) Message Routes Worker :=
  .new (fun _ => none) (fun _ => ⟨.new config risk, []⟩) ms

/-! ### The router's table -/

/-- **The router knows what the sequencer knows.** -/
def Covers (routes : Routes) (σ : Shard) : Prop :=
  ∀ ref info, σ.orderSymbol ref = some info → routes ref = some info.symbol

variable {routes : Routes} {σ : Shard} {used : List OrderId} {m : Message} {r : Handled} {ref : OrderId}
  {symbol : Bytes}

/-- It finds the symbol of an order that the sequencer knows. -/
theorem Covers.routeSymbolFor (h : Covers routes σ) (hs : σ.symbolOf m = some symbol) :
    (routeSymbolFor m routes).1 = some symbol := by
  cases m with
  | addOrderNoMPID m => exact hs
  | addOrderMPID m => exact hs
  | orderCancel m =>
    obtain ⟨info, hi, rfl⟩ := Option.map_eq_some_iff.mp hs
    exact h _ _ hi
  | orderExecuted m =>
    obtain ⟨info, hi, rfl⟩ := Option.map_eq_some_iff.mp hs
    exact h _ _ hi
  | orderExecutedWithPrice m =>
    rw [Shard.symbolOf] at hs
    split_ifs at hs
    obtain ⟨info, hi, rfl⟩ := Option.map_eq_some_iff.mp hs
    exact h _ _ hi
  | orderDelete m =>
    obtain ⟨info, hi, rfl⟩ := Option.map_eq_some_iff.mp hs
    simp only [MatchingEngine.routeSymbolFor, h _ _ hi]
  | orderReplace m =>
    obtain ⟨info, hi, rfl⟩ := Option.map_eq_some_iff.mp hs
    simp only [MatchingEngine.routeSymbolFor, h _ _ hi]
  | _ => cases hs

/-- The router changes nothing but the entries of the old number and of the new one. -/
theorem routes_of_ne (hold : m.oldRef ≠ some ref) (hnew : m.newRef ≠ some ref) :
    (routeSymbolFor m routes).2 ref = routes ref := by
  cases m with
  | addOrderNoMPID m => exact update_of_ne (fun he => hnew (congrArg some he.symm)) ..
  | addOrderMPID m => exact update_of_ne (fun he => hnew (congrArg some he.symm)) ..
  | orderDelete m =>
    simp only [routeSymbolFor]
    cases routes m.orderRefNumber with
    | none => rfl
    | some sym => exact update_of_ne (fun he => hold (congrArg some he.symm)) ..
  | orderReplace m =>
    simp only [routeSymbolFor]
    cases routes m.originalOrderRefNumber with
    | none => rfl
    | some sym =>
      exact (update_of_ne (fun he => hnew (congrArg some he.symm)) ..).trans
        (update_of_ne (fun he => hold (congrArg some he.symm)) ..)
  | _ => rfl

/-- Under the new number it remembers the symbol of the message. -/
theorem routes_newRef (hnew : m.newRef = some ref) (hs : (routeSymbolFor m routes).1 = some symbol) :
    (routeSymbolFor m routes).2 ref = some symbol := by
  cases m with
  | addOrderNoMPID m =>
    obtain rfl := Option.some.inj hnew
    exact (update_self ..).trans hs
  | addOrderMPID m =>
    obtain rfl := Option.some.inj hnew
    exact (update_self ..).trans hs
  | orderReplace m =>
    obtain rfl := Option.some.inj hnew
    simp only [routeSymbolFor] at hs ⊢
    cases hr : routes m.originalOrderRefNumber with
    | none =>
      rw [hr] at hs
      cases hs
    | some sym =>
      rw [hr] at hs
      exact (update_self ..).trans hs
  | _ => cases hnew

/-- **It still does after a message.** -/
theorem Covers.step (h : Covers routes σ) (hok : σ.Ok used) (hr : Shard.Handles σ m r)
    (hfresh : ∀ ref ∈ m.newRef, ref ∉ used) : Covers (MatchingEngine.routeSymbolFor m routes).2 r.shard := by
  intro ref info hi
  obtain ⟨hi, hold⟩ | ⟨hnew, hs⟩ := hr.orderSymbol hi
  · have hnew : m.newRef ≠ some ref := fun hn => hfresh ref hn (hok.used ref info hi)
    rw [routes_of_ne hold hnew]
    exact h ref info hi
  · exact routes_newRef hnew (h.routeSymbolFor hs)

/-! ### The shards together -/

/-- **The shards `τ` are what `σ` is**, each for the symbols that it owns, and new for the others. -/
structure Split (shardFor : Bytes → Fin (n + 1)) (new σ : Shard) (τ : Fin (n + 1) → Shard) : Prop where
  /-- A symbol is known to its shard. -/
  owned : ∀ symbol, Shard.Agree symbol σ (τ (shardFor symbol))
  /-- It is not known to the others. -/
  foreign : ∀ symbol k, k ≠ shardFor symbol → Shard.Agree symbol new (τ k)
  /-- What one counts the others do not. -/
  stats : ∑ k, (τ k).stats = σ.stats

variable {shardFor : Bytes → Fin (n + 1)} {new : Shard} {τ : Fin (n + 1) → Shard} {k : Fin (n + 1)}

/-- No shard knows more. -/
theorem Split.below (h : Split shardFor new σ τ) (hnew : ∀ ref, new.orderSymbol ref = none) (k : Fin (n + 1)) :
    Shard.Below (τ k) σ := by
  intro ref info hi
  by_cases hk : k = shardFor info.symbol
  · subst hk
    exact ((h.owned info.symbol).order rfl).mpr hi
  · have := ((h.foreign info.symbol k hk).order rfl).mpr hi
    rw [hnew] at this
    cases this

/-- One shard counts something more. -/
theorem sum_stats_update (τ : Fin (n + 1) → Shard) (k : Fin (n + 1)) {x : Shard} {d : Stats}
    (hx : x.stats = (τ k).stats + d) : ∑ j, (update τ k x j).stats = ∑ j, (τ j).stats + d := by
  have hrest : ∑ j ∈ Finset.univ.erase k, (update τ k x j).stats = ∑ j ∈ Finset.univ.erase k, (τ j).stats :=
    Finset.sum_congr rfl fun j hj => by rw [update_of_ne (Finset.ne_of_mem_erase hj)]
  rw [← Finset.sum_erase_add _ _ (Finset.mem_univ k), hrest, update_self, hx,
    ← Finset.sum_erase_add _ (fun j => (τ j).stats) (Finset.mem_univ k), add_assoc]

/-- One shard changes, and nothing that concerns the symbol does. -/
theorem agree_update {x : Shard} (hx : Shard.Agree symbol (τ k) x) (j : Fin (n + 1)) :
    Shard.Agree symbol (τ j) (update τ k x j) := by
  by_cases hj : j = k
  · subst hj
    rw [update_self]
    exact hx
  · rw [update_of_ne hj]
    exact .refl symbol (τ j)

/-- **A message keeps the shards together**, if it is given to the shard of its symbol, or to any shard if its order
is not known. -/
theorem Split.step (h : Split shardFor new σ τ) (hnew : ∀ ref, new.orderSymbol ref = none) (hok : σ.Ok used)
    (hfresh : ∀ ref ∈ m.newRef, ref ∉ used) (hrun : σ.onMessage m = .ok r) (hr : Shard.Handles σ m r)
    (hplain : ∀ symbol, σ.symbolOf m = some symbol → Plain symbol)
    (hk : ∀ symbol, σ.symbolOf m = some symbol → k = shardFor symbol) :
    ∃ x, (τ k).onMessage m = .ok ⟨x, r.emitted, r.escaped⟩ ∧ Split shardFor new r.shard (update τ k x) := by
  have hbelow := h.below hnew k
  cases hs : σ.symbolOf m with
  | none =>
    obtain ⟨d, rfl, hcall⟩ := hr.onlyCounts hs
    have hcount : ∀ (υ : Shard) symbol, Shard.Agree symbol υ (υ.count (· + d)) := fun υ symbol =>
      ⟨fun _ => Iff.rfl, rfl, fun _ => rfl⟩
    refine ⟨_, hcall (τ k) hbelow, fun symbol => ?_, fun symbol j hj => ?_, ?_⟩
    · exact (hcount σ symbol).symm.trans ((h.owned symbol).trans (agree_update (hcount (τ k) symbol) _))
    · exact (h.foreign symbol j hj).trans (agree_update (hcount (τ k) symbol) j)
    · rw [sum_stats_update τ k rfl, h.stats]
      rfl
  | some symbol =>
    obtain rfl := hk symbol hs
    obtain ⟨f, hf, hcall⟩ := hr.isLocal hrun hs (hplain symbol hs)
    have hshard : r.shard = f σ :=
      congrArg Handled.shard (Except.ok.inj (hrun.symm.trans (hcall σ (.refl symbol σ))))
    have honly := hok.onlyOf hfresh hs
    have honly' : Shard.OnlyOf symbol m.writes (τ (shardFor symbol)) := fun ref href info hi =>
      honly ref href info (hbelow ref info hi)
    have hframe : ∀ {symbol'}, symbol' ≠ symbol → ∀ j,
        Shard.Agree symbol' (τ j) (update τ (shardFor symbol) (f (τ (shardFor symbol))) j) := fun hne j =>
      agree_update (hf.frame honly' hne) j
    refine ⟨_, hcall _ (h.owned symbol), fun symbol' => ?_, fun symbol' j hj => ?_, ?_⟩
    · rw [hshard]
      by_cases he : symbol' = symbol
      · subst he
        rw [update_self]
        exact hf.congr (h.owned symbol')
      · exact (hf.frame honly he).symm.trans ((h.owned symbol').trans (hframe he _))
    · by_cases he : symbol' = symbol
      · subst he
        rw [update_of_ne hj]
        exact h.foreign symbol' j hj
      · exact (h.foreign symbol' j hj).trans (hframe he j)
    · obtain ⟨d, hd⟩ := hf.counts
      rw [sum_stats_update τ _ (hd _), h.stats, hshard, hd]

/-! ### What is emitted for a symbol -/

/-- The calls of the callbacks that are for a symbol. -/
def forSymbol (symbol : Bytes) (es : List Emitted) : List Emitted := es.filter (·.symbol = symbol)

@[simp] theorem forSymbol_append (symbol : Bytes) (es es' : List Emitted) :
    forSymbol symbol (es ++ es') = forSymbol symbol es ++ forSymbol symbol es' := List.filter_append ..

/-- **The shards `w` emit what one emits**, each for the symbols that it owns. -/
structure SplitEmitted (shardFor : Bytes → Fin (n + 1)) (es : List Emitted) (w : Fin (n + 1) → List Emitted) : Prop where
  /-- What is for a symbol its shard emits, in this order. -/
  owned : ∀ symbol, forSymbol symbol (w (shardFor symbol)) = forSymbol symbol es
  /-- The others emit nothing for it. -/
  foreign : ∀ symbol k, k ≠ shardFor symbol → forSymbol symbol (w k) = []

theorem SplitEmitted.step {es es' : List Emitted} {w : Fin (n + 1) → List Emitted} (h : SplitEmitted shardFor es w)
    (hk : ∀ e ∈ es', k = shardFor e.symbol) : SplitEmitted shardFor (es ++ es') (update w k (w k ++ es')) := by
  have hnil : ∀ symbol, k ≠ shardFor symbol → forSymbol symbol es' = [] := by
    intro symbol hne
    rw [forSymbol, List.filter_eq_nil_iff]
    intro e he
    rw [decide_eq_true_eq]
    rintro rfl
    exact hne (hk e he)
  refine ⟨fun symbol => ?_, fun symbol j hj => ?_⟩
  · by_cases hs : k = shardFor symbol
    · rw [← hs, update_self, forSymbol_append, forSymbol_append, hs, h.owned]
    · rw [update_of_ne (Ne.symm hs), forSymbol_append, hnil symbol hs, List.append_nil, h.owned]
  · by_cases he : j = k
    · subst he
      rw [update_self, forSymbol_append, h.foreign symbol j hj, hnil symbol hj]
      rfl
    · rw [update_of_ne he]
      exact h.foreign symbol j hj

/-! ### All messages -/

/-- The symbol of an order that is added does not contain the separator. -/
def Itch.Message.PlainSymbol (m : Message) : Prop := ∀ symbol ∈ m.addedSymbol, Plain symbol

instance (symbol : Bytes) : Decidable (Plain symbol) := inferInstanceAs (Decidable (¬ _))

instance (m : Message) : Decidable m.PlainSymbol := inferInstanceAs (Decidable (∀ symbol ∈ m.addedSymbol, Plain symbol))

/-- **What one shard and the shards together have in common** after the same messages. -/
structure SameResults (shardFor : Bytes → Fin (n + 1)) (config : Bytes → BookConfig) (one : Worker)
    (w : Fin (n + 1) → Worker) : Prop where
  /-- The book of a symbol is in its shard: the orders that rest, and their places in the queues. -/
  book : ∀ symbol, (w (shardFor symbol)).shard.books symbol = one.shard.books symbol
  /-- In the other shards no order has come to it. -/
  elsewhere : ∀ symbol k, k ≠ shardFor symbol →
    (w k).shard.books symbol = .new (config symbol).arenaCapacity (config symbol).initialWindow.toInt
  /-- What is reported and published for a symbol, by its shard and by no other. -/
  emitted : SplitEmitted shardFor one.emitted fun k => (w k).emitted
  /-- The counters, each summed over the shards. -/
  stats : ∑ k, (w k).shard.stats = one.shard.stats

/-- **One shard, and the shards together**, after the same messages. -/
structure Together (shardFor : Bytes → Fin (n + 1)) (capacity : ℕ) (config : Bytes → BookConfig)
    (risk : Option RiskEngine.Config) (past : List Message) (one : Worker) (w : Fin (n + 1) → Worker) : Prop where
  /-- One shard has handled all messages. -/
  run : (Shard.new config risk).run past = .ok (one.shard, one.emitted)
  /-- It is as it should be. -/
  ok : one.shard.Ok (newRefs past)
  /-- The symbols in its table are plain. -/
  plain : ∀ ref info, one.shard.orderSymbol ref = some info → Plain info.symbol
  /-- The router knows the orders that it knows. -/
  covers : Covers ((pipeline shardFor capacity).tableAfter (fun _ => none) past) one.shard
  /-- Each shard has handled its part. -/
  parts : ∀ k, ((pipeline shardFor capacity).part k (fun _ => none) past).foldlM Worker.onMessage
    ⟨.new config risk, []⟩ = some (w k)
  /-- Together they are what the one is. -/
  split : Split shardFor (.new config risk) one.shard fun k => (w k).shard
  /-- Together they have emitted what it has. -/
  emitted : SplitEmitted shardFor one.emitted fun k => (w k).emitted

variable {capacity : ℕ} {config : Bytes → BookConfig} {risk : Option RiskEngine.Config} {past : List Message}
  {one : Worker} {w : Fin (n + 1) → Worker}

theorem together_new (shardFor : Bytes → Fin (n + 1)) (capacity : ℕ) (config : Bytes → BookConfig)
    (risk : Option RiskEngine.Config) :
    Together shardFor capacity config risk [] ⟨.new config risk, []⟩ fun _ => ⟨.new config risk, []⟩ where
  run := rfl
  ok := .new config risk
  plain ref info hi := by cases hi
  covers ref info hi := by cases hi
  parts k := rfl
  split := by
    refine ⟨fun symbol => .refl .., fun symbol k _ => .refl .., ?_⟩
    exact Finset.sum_eq_zero fun k _ => rfl
  emitted := ⟨fun symbol => rfl, fun symbol k _ => rfl⟩

/-- The worker that is given the next message. -/
def workerFor (shardFor : Bytes → Fin (n + 1)) (capacity : ℕ) (past : List Message) (m : Message) : Fin (n + 1) :=
  ((pipeline shardFor capacity).route ((pipeline shardFor capacity).tableAfter (fun _ => none) past) m).1

theorem Together.workerFor_eq (h : Together shardFor capacity config risk past one w)
    (hs : one.shard.symbolOf m = some symbol) : workerFor shardFor capacity past m = shardFor symbol :=
  congrArg (shardOf shardFor) (h.covers.routeSymbolFor hs)

/-- The worker of the next message handles it, and no other one does. -/
theorem Together.foldlM_part (h : Together shardFor capacity config risk past one w) (m : Message) (j : Fin (n + 1)) :
    ((pipeline shardFor capacity).part j (fun _ => none) (past ++ [m])).foldlM Worker.onMessage ⟨.new config risk, []⟩ =
      if workerFor shardFor capacity past m = j then (w j).onMessage m else some (w j) := by
  rw [workerFor, Dispatch.Program.part_snoc, List.foldlM_append, h.parts j]
  split_ifs
  · simp
  · rfl

/-- The next message does to its worker what it does to the one shard. -/
theorem Together.onMessage (h : Together shardFor capacity config risk past one w)
    (hfresh : ∀ ref ∈ m.newRef, ref ∉ newRefs past) (hplain : m.PlainSymbol) (hrun : one.shard.onMessage m = .ok r)
    (hr : Shard.Handles one.shard m r) :
    ∃ x, (w (workerFor shardFor capacity past m)).shard.onMessage m = .ok ⟨x, r.emitted, r.escaped⟩ ∧
      Split shardFor (.new config risk) r.shard
        (update (fun k => (w k).shard) (workerFor shardFor capacity past m) x) :=
  h.split.step (fun _ => rfl) h.ok hfresh hrun hr (fun _ hs => Shard.of_symbolOf h.plain hplain hs)
    fun _ hs => h.workerFor_eq hs

/-- **One message more**, which no exception leaves. -/
theorem Together.step (h : Together shardFor capacity config risk past one w) (hnd : (newRefs (past ++ [m])).Nodup)
    (hplain : m.PlainSymbol) (hret : one.shard.MessageReturns m) :
    ∃ one' w', Together shardFor capacity config risk (past ++ [m]) one' w' := by
  have hfresh := fresh_of_nodup hnd
  obtain ⟨r, hrun, hr⟩ := h.ok.onMessage m hfresh
  obtain ⟨x, hx, hsplit⟩ := h.onMessage hfresh hplain hrun hr
  have hesc : r.escaped = none := (hr.returns_iff h.ok).mp hret
  let k := workerFor shardFor capacity past m
  have hw : (w k).onMessage m = some ⟨x, (w k).emitted ++ r.emitted⟩ := by
    simp only [Worker.onMessage, k, hx]
    exact if_pos hesc
  have hnewRefs : newRefs (past ++ [m]) = newRefs past ++ m.newRef.toList := by
    rw [newRefs_append]
    cases hm : m.newRef <;> simp [newRefs, hm]
  refine ⟨⟨r.shard, one.emitted ++ r.emitted⟩, update w k ⟨x, (w k).emitted ++ r.emitted⟩,
    Shard.run_snoc h.run hrun, ?_, hr.symbols hplain h.plain, ?_, fun j => ?_, ?_, ?_⟩
  · rw [hnewRefs]
    exact hr.ok h.ok hfresh
  · rw [Dispatch.Program.tableAfter_append]
    exact h.covers.step h.ok hr hfresh
  · rw [h.foldlM_part]
    split_ifs with hj
    · rw [← hj, hw, update_self]
    · rw [update_of_ne (Ne.symm hj)]
  · have heq : (fun j => (update w k ⟨x, (w k).emitted ++ r.emitted⟩ j).shard) =
        update (fun j => (w j).shard) k x := funext fun j => apply_update (fun _ => Worker.shard) w k _ j
    rw [heq]
    exact hsplit
  · have heq : (fun j => (update w k ⟨x, (w k).emitted ++ r.emitted⟩ j).emitted) =
        update (fun j => (w j).emitted) k ((w k).emitted ++ r.emitted) :=
      funext fun j => apply_update (fun _ => Worker.emitted) w k _ j
    rw [heq]
    refine h.emitted.step fun e he => ?_
    cases hs : one.shard.symbolOf m with
    | none =>
      obtain ⟨d, rfl, -⟩ := hr.onlyCounts hs
      cases he
    | some symbol =>
      rw [hr.symbol_of_mem h.ok hs e he]
      exact h.workerFor_eq hs

theorem exists_together (shardFor : Bytes → Fin (n + 1)) (capacity : ℕ) (config : Bytes → BookConfig)
    (risk : Option RiskEngine.Config) {ms : List Message} (hnd : (newRefs ms).Nodup) (hplain : ∀ m ∈ ms, m.PlainSymbol)
    (hret : (Shard.new config risk).Along Shard.MessageReturns ms) :
    ∃ one w, Together shardFor capacity config risk ms one w := by
  induction ms using List.reverseRecOn with
  | nil => exact ⟨_, _, together_new shardFor capacity config risk⟩
  | append_singleton past m ih =>
    have hpast := hret.of_append
    obtain ⟨one, w, h⟩ := ih (Shard.nodup_of_snoc hnd) (fun m' hm' => hplain m' (List.mem_append_left _ hm')) hpast
    exact h.step hnd (hplain m (List.mem_append_right _ (List.mem_singleton_self m)))
      ((Shard.along_snoc h.run m).mp hret).2

theorem Together.sameResults (h : Together shardFor capacity config risk past one w) :
    SameResults shardFor config one w where
  book symbol := (h.split.owned symbol).book.symm
  elsewhere symbol k hk := (h.split.foreign symbol k hk).book.symm
  emitted := h.emitted
  stats := h.split.stats

/-- If the worker of the next message can handle it, no exception leaves the one shard. -/
theorem Together.returns_of_handles (h : Together shardFor capacity config risk past one w)
    (hnd : (newRefs (past ++ [m])).Nodup) (hplain : m.PlainSymbol)
    (hall : ∀ k, (pipeline shardFor capacity).Handles (fun _ => none) (fun _ => ⟨.new config risk, []⟩) (past ++ [m]) k) :
    one.shard.MessageReturns m := by
  have hfresh := fresh_of_nodup hnd
  obtain ⟨r, hrun, hr⟩ := h.ok.onMessage m hfresh
  obtain ⟨x, hx, -⟩ := h.onMessage hfresh hplain hrun hr
  have hk : (((pipeline shardFor capacity).part (workerFor shardFor capacity past m) (fun _ => none)
      (past ++ [m])).foldlM Worker.onMessage ⟨.new config risk, []⟩).isSome := hall _
  rw [h.foldlM_part, if_pos rfl] at hk
  rw [hr.returns_iff h.ok]
  by_contra hesc
  simp [Worker.onMessage, hx, hesc] at hk

/-- **The workers can handle the messages that they are given** if and only if no exception leaves one shard that
is given them all. -/
theorem handles_part_iff (shardFor : Bytes → Fin (n + 1)) (capacity : ℕ) (config : Bytes → BookConfig)
    (risk : Option RiskEngine.Config) {ms : List Message} (hnd : (newRefs ms).Nodup) (hplain : ∀ m ∈ ms, m.PlainSymbol) :
    (∀ k, (pipeline shardFor capacity).Handles (fun _ => none) (fun _ => ⟨.new config risk, []⟩) ms k) ↔
      (Shard.new config risk).Along Shard.MessageReturns ms := by
  constructor
  · intro hall
    induction ms using List.reverseRecOn with
    | nil => trivial
    | append_singleton past m ih =>
      have hpast := fun m' hm' => hplain m' (List.mem_append_left _ hm')
      have hret := ih (Shard.nodup_of_snoc hnd) hpast fun k => (hall k).of_append
      obtain ⟨one, w, h⟩ := exists_together shardFor capacity config risk (Shard.nodup_of_snoc hnd) hpast hret
      exact (Shard.along_snoc h.run m).mpr
        ⟨hret, h.returns_of_handles hnd (hplain m (List.mem_append_right _ (List.mem_singleton_self m))) hall⟩
  · intro hret k
    obtain ⟨one, w, h⟩ := exists_together shardFor capacity config risk hnd hplain hret
    exact Option.isSome_of_eq_some (h.parts k)

/-- The invariant of the threads holds at every moment. -/
theorem inv_pipeline (shardFor : Bytes → Fin (n + 1)) (capacity : ℕ) (config : Bytes → BookConfig)
    (risk : Option RiskEngine.Config) (ms : List Message) (turns : List (Dispatch.Turn (Fin (n + 1)))) :
    Dispatch.Inv (pipeline shardFor capacity) (fun _ => none) (fun _ => ⟨.new config risk, []⟩) ms
      ((pipeline shardFor capacity).run (pipelineStart n config risk ms) turns) :=
  (Dispatch.inv_new ..).run turns

/-- No worker ends by an exception, if none leaves one shard. -/
theorem worker_ne_failed (shardFor : Bytes → Fin (n + 1)) (capacity : ℕ) (config : Bytes → BookConfig)
    (risk : Option RiskEngine.Config) {ms : List Message} (hnd : (newRefs ms).Nodup) (hplain : ∀ m ∈ ms, m.PlainSymbol)
    (hret : (Shard.new config risk).Along Shard.MessageReturns ms) (turns : List (Dispatch.Turn (Fin (n + 1))))
    (k : Fin (n + 1)) (m : Message) :
    ((pipeline shardFor capacity).run (pipelineStart n config risk ms) turns).worker k ≠ .failed m :=
  (inv_pipeline shardFor capacity config risk ms turns).not_failed
    ((handles_part_iff shardFor capacity config risk hnd hplain).mpr hret k) m

/-- Whatever the threads have done, they can go on until all workers have left. -/
theorem pipeline_can_finish (shardFor : Bytes → Fin (n + 1)) {capacity : ℕ} (hcap : 0 < capacity)
    (config : Bytes → BookConfig) (risk : Option RiskEngine.Config) {ms : List Message} (hnd : (newRefs ms).Nodup)
    (hplain : ∀ m ∈ ms, m.PlainSymbol) (hret : (Shard.new config risk).Along Shard.MessageReturns ms)
    (turns : List (Dispatch.Turn (Fin (n + 1)))) :
    ∃ turns', ∀ k, ((pipeline shardFor capacity).run (pipelineStart n config risk ms) (turns ++ turns')).worker k = .left := by
  obtain ⟨turns', hend⟩ := (inv_pipeline shardFor capacity config risk ms turns).can_finish hcap
    ((handles_part_iff shardFor capacity config risk hnd hplain).mpr hret)
  refine ⟨turns', ?_⟩
  rw [Dispatch.Program.run, List.foldl_append]
  exact hend

/-- **Sharding by symbol changes nothing**: for every number of shards, every way to give them symbols, every capacity
of the rings, and every interleaving of the threads. -/
theorem sharded_results (shardFor : Bytes → Fin (n + 1)) (capacity : ℕ) (config : Bytes → BookConfig)
    (risk : Option RiskEngine.Config) {ms : List Message} (hnd : (newRefs ms).Nodup) (hplain : ∀ m ∈ ms, m.PlainSymbol)
    (turns : List (Dispatch.Turn (Fin (n + 1))))
    (hleft : ∀ k, ((pipeline shardFor capacity).run (pipelineStart n config risk ms) turns).worker k = .left) :
    ∃ one : Worker, (Shard.new config risk).run ms = .ok (one.shard, one.emitted) ∧
      SameResults shardFor config one ((pipeline shardFor capacity).run (pipelineStart n config risk ms) turns).state := by
  have hfinished := (inv_pipeline shardFor capacity config risk ms turns).finished hleft
  obtain ⟨one, w, h⟩ := exists_together shardFor capacity config risk hnd hplain
    ((handles_part_iff shardFor capacity config risk hnd hplain).mp fun k => Option.isSome_of_eq_some (hfinished k))
  have hw : ((pipeline shardFor capacity).run (pipelineStart n config risk ms) turns).state = w :=
    funext fun k => Option.some.inj ((hfinished k).symm.trans (h.parts k))
  rw [hw]
  exact ⟨one, h.run, h.sameResults⟩

/-! ### Two shards -/

/-- Orders of two symbols that come and go, and a message for a number that no order has. -/
def twoSymbols : List Message :=
  [Shard.addAB 1 66 5 100 77,
    .addOrderNoMPID { h := Shard.noHeader, orderRefNumber := 4, buySellIndicator := 66, shares := 5
                      stock := #v[67, space, space, space, space, space, space, space], price := 100 },
    Shard.addAB 2 83 3 100 78, Shard.replaceBy 1 3 4 101, Shard.deleteOf 9, Shard.deleteOf 4]

/-- One shard is for the symbol `AB`. -/
def shardOfAB (symbol : Bytes) : Fin 2 := if symbol = [65, 66] then 1 else 0

/-- The threads take turns. -/
def inTurn : List (Dispatch.Turn (Fin 2)) := (List.replicate 18 [.router, .worker 0, .worker 1]).flatten

theorem sharded_results_two : ∃ one : Worker,
    (Shard.new Shard.smallBooks (some Shard.noBand)).run twoSymbols = .ok (one.shard, one.emitted) ∧
      SameResults shardOfAB Shard.smallBooks one ((pipeline shardOfAB 1).run
        (pipelineStart 1 Shard.smallBooks (some Shard.noBand) twoSymbols) inTurn).state :=
  sharded_results shardOfAB 1 Shard.smallBooks (some Shard.noBand) (show (newRefs twoSymbols).Nodup by decide)
    (show ∀ m ∈ twoSymbols, m.PlainSymbol by decide) inTurn (Fin.forall_fin_two.mpr ⟨rfl, rfl⟩)

end MatchingEngine
