import MatchingEngine.Core.FillOrKill
import MatchingEngine.Core.Leaving
import MatchingEngine.Core.Resting

/-!
# One call, and the reference book

`add` put together from its parts: it is `Book.addWith` with the 64-bit fill-or-kill test,
if it returns. If it throws, it does so after it has matched and before the order rests,
and the book holds what the matching has left.

`call` is any of the three calls, with what the observers show afterwards. The only thing
that the language leaves undefined is the overflow of a price computation.
-/

namespace MatchingEngine

open Foundation Function OrderBookV2

variable {s : OrderBookV2} {c : Layout} {req : OrderRequest}

/-! ### The reference book -/

/-- A price that is not accepted is one that the order stays behind of. -/
theorem ahead_of_not_accepts (htype : req.type ≠ .market) {p : ℤ} (h : req.accepts p = false) :
    req.side.opposite.ahead req.price p := by
  rw [OrderRequest.accepts, decide_eq_false htype, Bool.false_or] at h
  cases hside : req.side with
  | buy =>
    rw [hside] at h
    have h : ¬ p ≤ req.price := of_decide_eq_false h
    exact decide_eq_true (not_le.mp h)
  | sell =>
    rw [hside] at h
    have h : ¬ req.price ≤ p := of_decide_eq_false h
    exact decide_eq_true (not_le.mp h)

/-- **What is left of a limit order does not cross.** -/
theorem staysBehind_taken (b : Book) (htype : req.type ≠ .market) (hleft : 0 < (b.take req).left) :
    StaysBehind (b.taken req) req := by
  intro p hp
  rw [Book.best, Book.taken, side_withSide] at hp
  obtain ⟨o, ho, rfl⟩ := Option.map_eq_some_iff.mp hp
  exact ahead_of_not_accepts htype (fill_rest_head hleft o ho)

theorem staysBehind_of_not_crosses {b : Book} (htype : req.type ≠ .market) (h : b.crosses req = false) :
    StaysBehind b req := by
  intro p hp
  rw [Book.crosses, Option.mem_def.mp hp] at h
  exact ahead_of_not_accepts htype h

/-! ### The parts of `add` -/

/-- **The post-only test.** -/
theorem Settled.wouldCross (h : Settled s c) (htype : req.type ≠ .market) :
    s.wouldCross req = .ok ((s.bookOf c).crosses req) := by
  rw [OrderBookV2.wouldCross, Book.crosses]
  cases hside : req.side with
  | buy =>
    dsimp only
    rw [h.hasAsk_eq, h.bestAsk_eq, Side.opposite]
    cases hb : (s.bookOf c).best .sell with
    | none => rfl
    | some p => simp [accepts_buy htype hside]
  | sell =>
    dsimp only
    rw [h.hasBid_eq, h.bestBid_eq, Side.opposite]
    cases hb : (s.bookOf c).best .buy with
    | none => rfl
    | some p => simp [accepts_sell htype hside]

/-- How a call of `add` ends, in the layout `c'`. -/
structure Added (s : OrderBookV2) (c : Layout) (req : OrderRequest) (r : AddResult) (c' : Layout) : Prop where
  /-- The representation is kept. -/
  settled : Settled r.book c'
  /-- The index names every order, if the id is a new one. -/
  tracked : Tracked s c → (req.type ≠ .cancel → req.id ∉ (s.bookOf c).ids) → Tracked r.book c'
  /-- A call that returns is that of the reference book, -/
  returned : (req.type = .cancel → Tracked s c) → r.thrown = none →
    (r.trades, r.book.bookOf c') = (s.bookOf c).addWith Book.coversWrapping req
  /-- and one that throws has done all but let the order rest. -/
  threw : r.thrown ≠ none → (r.trades, r.book.bookOf c') = (s.bookOf c).beforeRest req
  /-- The arena is exhausted only if every cell holds an order. -/
  exhausted : r.thrown = some arenaExhausted → (r.book.bookOf c').orders.length = s.arenaCapacity
  /-- The size of the arena and the window do not change. -/
  params : r.book.arenaCapacity = s.arenaCapacity ∧ r.book.initialWindow = s.initialWindow
  /-- The price axis stays moderate. -/
  base : BaseOk s → (req.type ≠ .cancel → 0 ≤ req.price ∧ req.price < 2 ^ 32) → BaseOk r.book

theorem BaseOk.frame {s' : OrderBookV2} (hb : BaseOk s) (hf : Frame s s') : BaseOk s' :=
  ⟨by rw [hf.window]; exact hb.window, by rw [hf.haveBase, hf.base]; exact hb.base⟩

/-- A call that leaves everything alone. -/
theorem Added.refl (h : Settled s c) (hr : ([], s.bookOf c) = (s.bookOf c).addWith Book.coversWrapping req) :
    Added s c req ⟨s, [], none⟩ c where
  settled := h
  tracked := fun t _ => t
  returned := fun _ _ => hr
  threw := fun hn => absurd rfl hn
  exhausted := fun he => absurd he (by simp)
  params := ⟨rfl, rfl⟩
  base := fun hb _ => hb

/-- Matching without resting. -/
theorem Matched.added {s' : OrderBookV2} {taker' : OrderRequest} {ts : List Trade} {c' : Layout}
    (hm : Matched s c req s' taker' ts c')
    (hr : ((s.bookOf c).trades req, (s.bookOf c).taken req) = (s.bookOf c).addWith Book.coversWrapping req) :
    Added s c req ⟨s', ts, none⟩ c' where
  settled := hm.settled
  tracked := fun t _ => hm.tracked t
  returned := fun _ _ => by rw [hm.trades, hm.book, hr]
  threw := fun hn => absurd rfl hn
  exhausted := fun he => absurd he (by simp)
  params := ⟨hm.frame.capacity, hm.frame.window⟩
  base := fun hb _ => hb.frame hm.frame

/-- **`add` of an order that takes and does not rest.** -/
theorem Settled.add_taker (h : Settled s c)
    (hr : ((s.bookOf c).trades req, (s.bookOf c).taken req) = (s.bookOf c).addWith Book.coversWrapping req) :
    ∃ r c', (do let (s, _, trades) ← s.match_ req []; .ok (⟨s, trades, none⟩ : AddResult) : Except Ub AddResult) = .ok r ∧
      Added s c req r c' := by
  obtain ⟨s', taker', ts, c', hrun, hm⟩ := h.match_ req []
  refine ⟨⟨s', ts, none⟩, c', ?_, hm.added hr⟩
  rw [hrun]
  rfl

theorem Settled.add_cancel (h : Settled s c) (htype : req.type = .cancel) :
    ∃ r c', s.add req = .ok r ∧ Added s c req r c' := by
  obtain ⟨found, s', c', hrun, hl, -, hf⟩ := h.cancel req.id
  have hadd : ((s.bookOf c).addWith Book.coversWrapping req) = ([], ((s.bookOf c).cancel req.id).2) := by
    rw [Book.addWith, htype]
  refine ⟨⟨s', [], none⟩, c', ?_, hl.settled, fun t _ => hl.tracked t, fun ht _ => ?_, fun hn => absurd rfl hn,
    fun he => absurd he (by simp), ⟨hl.frame.capacity, hl.frame.window⟩, fun hb _ => hb.frame hl.frame⟩
  · rw [OrderBookV2.add, htype]
    dsimp only
    rw [hrun]
    rfl
  · rw [hadd, hl.book (ht htype)]

theorem Settled.add_postOnly (h : Settled s c) (htype : req.type = .postOnly) (hp : InI64 req.price) :
    Ends (fun u => u = .overflow ∧ ¬ Moderate s req.price) (s.add req) fun r => ∃ c', Added s c req r c' := by
  have hmarket : req.type ≠ .market := by rw [htype]; decide
  have hcancel : req.type ≠ .cancel := by rw [htype]; decide
  have hlimit : req.type ≠ .limit := by rw [htype]; decide
  rw [OrderBookV2.add, htype]
  dsimp only
  rw [h.wouldCross hmarket, ok_bind]
  cases hx : (s.bookOf c).crosses req with
  | true =>
    rw [if_pos rfl]
    exact ⟨c, Added.refl h (by rw [Book.addWith, htype, hx]; rfl)⟩
  | false =>
    rw [if_neg (by decide)]
    refine Ends.bind (h.rest hp (staysBehind_of_not_crosses hmarket hx)) ?_
    rintro ⟨thrown, s'⟩ ⟨c', hr⟩
    refine ⟨c', hr.settled, fun t hid => hr.tracked t fun _ => hid hcancel, fun _ hn => ?_, fun hn => ?_, fun he => ?_,
      hr.params,
      fun hb hm => hr.base ⟨hb, hm hcancel⟩⟩
    · rw [hr.joined hn, Book.addWith, htype, hx]
      rfl
    · rw [hr.unchanged hn, Book.beforeRest, if_neg hlimit]
    · rw [hr.unchanged fun hn => absurd (hn.symm.trans he) (by simp)]
      exact hr.exhausted he

theorem Settled.add_limit (h : Settled s c) (htype : req.type = .limit) (hp : InI64 req.price) :
    Ends (fun u => u = .overflow ∧ ¬ Moderate s req.price) (s.add req) fun r => ∃ c', Added s c req r c' := by
  have hmarket : req.type ≠ .market := by rw [htype]; decide
  have hcancel : req.type ≠ .cancel := by rw [htype]; decide
  have hadd : (s.bookOf c).addWith Book.coversWrapping req = ((s.bookOf c).trades req,
      if 0 < ((s.bookOf c).take req).left then ((s.bookOf c).taken req).join req ((s.bookOf c).take req).left
      else (s.bookOf c).taken req) := by
    rw [Book.addWith, htype]
  have hbefore : (s.bookOf c).beforeRest req = ((s.bookOf c).trades req, (s.bookOf c).taken req) := by
    rw [Book.beforeRest, if_pos htype]
  obtain ⟨s₁, taker, ts, c₁, hrun, hm⟩ := h.match_ req []
  obtain ⟨htaker, hleft⟩ := hm.taker
  rw [OrderBookV2.add, htype]
  simp only [reduceCtorEq, if_false, ok_bind, Bool.false_eq_true, true_and]
  rw [hrun, ok_bind]
  dsimp only
  by_cases hpos : 0 < taker.qty
  · rw [if_pos hpos]
    have hpos' := toNat_pos.mpr hpos
    rw [hleft] at hpos'
    have hstay : StaysBehind (s₁.bookOf c₁) taker := by
      rw [hm.book, htaker]
      exact staysBehind_taken (s.bookOf c) hmarket hpos'
    have hprice : taker.price = req.price := by rw [htaker]
    have hid : taker.id = req.id := by rw [htaker]
    have hmod : ∀ {u : Ub}, (u = .overflow ∧ ¬ Moderate s₁ taker.price) → u = .overflow ∧ ¬ Moderate s req.price :=
      fun hu => ⟨hu.1, fun hmod => hu.2 ⟨hmod.1.frame hm.frame, by rw [hprice]; exact hmod.2⟩⟩
    refine Ends.bind ((hm.settled.rest (by rw [hprice]; exact hp) hstay).weaken fun u hu => hmod hu) ?_
    rintro ⟨thrown, s'⟩ ⟨c', hr⟩
    refine ⟨c', hr.settled, fun t hnew => ?_, fun _ hn => ?_, fun hn => ?_, fun he => ?_, ?_, fun hb hmd => ?_⟩
    · refine hr.tracked (hm.tracked t) fun _ hmem => ?_
      rw [hm.book, hid] at hmem
      exact hnew hcancel (ids_taken_subset _ _ hmem)
    · rw [hr.joined hn, hadd, if_pos hpos', hm.book, hleft, htaker]
      simp only [List.nil_append, hm.trades]
      rfl
    · rw [hr.unchanged hn, hm.book, hbefore, List.nil_append, hm.trades]
    · rw [hr.unchanged fun hn => absurd (hn.symm.trans he) (by simp), hr.exhausted he, hm.frame.capacity]
    · exact ⟨hr.params.1.trans hm.frame.capacity, hr.params.2.trans hm.frame.window⟩
    · exact hr.base ⟨hb.frame hm.frame, by rw [hprice]; exact hmd hcancel⟩
  · rw [if_neg hpos]
    have hz : ¬ 0 < ((s.bookOf c).take req).left := by
      rw [← hleft]
      exact fun hq => hpos (toNat_pos.mp hq)
    refine ⟨c₁, hm.settled, fun t _ => hm.tracked t, fun _ _ => ?_, fun hn => absurd rfl hn, fun he => absurd he (by simp),
      ⟨hm.frame.capacity, hm.frame.window⟩, fun hb _ => hb.frame hm.frame⟩
    rw [hadd, if_neg hz, List.nil_append, hm.trades, hm.book]

theorem Settled.add_fok (h : Settled s c) (htype : req.type = .fok) :
    Ends (fun u => u = .overflow) (s.add req) fun r => ∃ c', Added s c req r c' := by
  have hmarket : req.type ≠ .market := by rw [htype]; decide
  have hadd : (s.bookOf c).addWith Book.coversWrapping req =
      if (s.bookOf c).coversWrapping req then ((s.bookOf c).trades req, (s.bookOf c).taken req) else ([], s.bookOf c) := by
    rw [Book.addWith, htype]
  rw [OrderBookV2.add, htype]
  simp only [if_true, reduceCtorEq, false_and, if_false, bind_assoc]
  refine Ends.bind (h.canFullyFill hmarket) fun b hb => ?_
  rw [ok_bind]
  cases b with
  | false =>
    rw [if_pos (by decide)]
    refine ⟨c, Added.refl h ?_⟩
    rw [hadd]
    by_cases hz : req.qty = 0
    · rw [taken_or_not _ (toNat_eq_zero.mpr hz)]
    · rw [← hb hz]
      rfl
  | true =>
    rw [if_neg (by decide)]
    have htake : ((s.bookOf c).trades req, (s.bookOf c).taken req) = (s.bookOf c).addWith Book.coversWrapping req := by
      rw [hadd]
      by_cases hz : req.qty = 0
      · obtain ⟨h1, h2⟩ := taken_zero (s.bookOf c) (toNat_eq_zero.mpr hz)
        rw [taken_or_not _ (toNat_eq_zero.mpr hz), h1, h2]
      · rw [← hb hz]
        rfl
    obtain ⟨r, c', hrun, hr⟩ := h.add_taker htake
    exact Ends.of_exists ⟨r, hrun, c', hr⟩

/-- **`add`.** -/
theorem Settled.add (h : Settled s c) (hp : InI64 req.price) :
    Ends (fun u => u = .overflow ∧ (req.type = .fok ∨ ¬ Moderate s req.price)) (s.add req) fun r =>
      ∃ c', Added s c req r c' := by
  cases htype : req.type with
  | cancel =>
    obtain ⟨r, c', hrun, hr⟩ := h.add_cancel htype
    exact Ends.of_exists ⟨r, hrun, c', hr⟩
  | postOnly => exact (h.add_postOnly htype hp).weaken fun u hu => ⟨hu.1, Or.inr hu.2⟩
  | limit => exact (h.add_limit htype hp).weaken fun u hu => ⟨hu.1, Or.inr hu.2⟩
  | fok => exact (h.add_fok htype).weaken fun u hu => ⟨hu, Or.inl rfl⟩
  | market =>
    obtain ⟨r, c', hrun, hr⟩ := h.add_taker (by rw [Book.addWith, htype] : (_, (s.bookOf c).taken req) = _)
    refine Ends.of_exists ⟨r, ?_, c', hr⟩
    rw [OrderBookV2.add, htype, ← hrun]
    simp
  | ioc =>
    obtain ⟨r, c', hrun, hr⟩ := h.add_taker (by rw [Book.addWith, htype] : (_, (s.bookOf c).taken req) = _)
    refine Ends.of_exists ⟨r, ?_, c', hr⟩
    rw [OrderBookV2.add, htype, ← hrun]
    simp

end MatchingEngine
