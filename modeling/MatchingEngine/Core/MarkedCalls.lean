import MatchingEngine.Core.Marks
import MatchingEngine.Core.Runs

/-!
# Calls under any ids

`MarkedBook.call` is the reference book of a call whose id may rest already: what it answers,
whether it throws, and the marked book afterwards. It is told the size of the arena, the window,
and whether the price axis refuses the price; nothing else of the state matters.

`Bears.call` says that the engine does this, and `Reached.bears` that every state that calls
lead to has a marked book.
-/

namespace MatchingEngine

open Foundation Function OrderBookV2

/-- The price is too far from those that the axis has been opened and grown for. -/
def Exn.offAxis (e : Exn) : Bool := e = rebasePastMaxLevels ∨ e = growthPastMaxLevels

/-- The exception with which the price axis refuses a price, if it does. -/
def refusal (thrown : Option Exn) : Option Exn := thrown.filter Exn.offAxis

namespace MarkedBook

/-- An order comes to rest, if there can be a price axis, the axis accepts its price, and a cell is free. -/
def rest (b : MarkedBook) (capacity : ℕ) (window : ℤ) (refused : Option Exn) (req : OrderRequest) (qty : ℕ) :
    Option Exn × MarkedBook :=
  if WindowFits window then
    match refused with
    | some e => (some e, b)
    | none => if b.size < capacity then (none, b.join req qty) else (some arenaExhausted, b)
  else (some .lengthError, b)

/-- `add`: the trades, the exception, and the book afterwards. -/
def add (b : MarkedBook) (capacity : ℕ) (window : ℤ) (refused : Option Exn) (req : OrderRequest) :
    List Trade × Option Exn × MarkedBook :=
  match req.type with
  | .cancel => ([], none, (b.cancel req.id).2)
  | .postOnly => if b.book.crosses req then ([], none, b) else ([], b.rest capacity window refused req req.qty.toNat)
  | .fok => if b.book.coversWrapping req then (b.book.trades req, none, b.taken req) else ([], none, b)
  | .limit =>
    if 0 < (b.book.take req).left then
      (b.book.trades req, (b.taken req).rest capacity window refused req (b.book.take req).left)
    else (b.book.trades req, none, b.taken req)
  | .market | .ioc => (b.book.trades req, none, b.taken req)

/-- One call: the answer, the exception, and the book afterwards. -/
def call (b : MarkedBook) (capacity : ℕ) (window : ℤ) (refused : Option Exn) : Call → Answer × Option Exn × MarkedBook
  | .add req => (.trades (b.add capacity window refused req).1, (b.add capacity window refused req).2)
  | .cancel id => (.found (b.cancel id).1, none, (b.cancel id).2)
  | .reduce id delta => (.found (b.reduce id delta).1, none, (b.reduce id delta).2)

theorem rest_unopened {b : MarkedBook} {capacity : ℕ} {window : ℤ} {refused : Option Exn} {req : OrderRequest} {qty : ℕ}
    (hw : ¬WindowFits window) : b.rest capacity window refused req qty = (some .lengthError, b) := if_neg hw

theorem rest_refused {b : MarkedBook} {capacity : ℕ} {window : ℤ} {e : Exn} {req : OrderRequest} {qty : ℕ}
    (hw : WindowFits window) : b.rest capacity window (some e) req qty = (some e, b) := if_pos hw

theorem rest_accepted {b : MarkedBook} {capacity : ℕ} {window : ℤ} {req : OrderRequest} {qty : ℕ}
    (hw : WindowFits window) :
    b.rest capacity window none req qty =
      if b.size < capacity then (none, b.join req qty) else (some arenaExhausted, b) := if_pos hw

end MarkedBook

variable {s s' : OrderBookV2} {c : Layout} {i x : ℕ} {req : OrderRequest} {b : MarkedBook} {capacity : ℕ} {window : ℤ}

/-! ### The price axis -/

/-- What `ensure_index_for_price` may do to the price axis at once. -/
inductive Grown (s : OrderBookV2) : OrderBookV2 → Prop
  /-- Nothing. -/
  | same : Grown s s
  /-- It opens the axis, or fails to. -/
  | opened (base : ℤ) (n : ℕ) (hb : Bool) : s.levels = [] → (hb = false → n = 0) →
      (hb = true → WindowFits s.initialWindow) →
    Grown s { s with base := base, haveBase := hb, levels := List.replicate n {} }
  /-- It adds levels at the front. -/
  | front (k : ℕ) : s.haveBase = true → Grown s (shifted s k)
  /-- It adds levels at the back. -/
  | back (n : ℕ) : s.haveBase = true → Grown s (extended s n)

theorem Grown.window_eq (hg : Grown s s') : s'.initialWindow = s.initialWindow := by cases hg <;> rfl

/-- **The axis does not touch the marks.** -/
theorem Bears.grown (h : Bears s b capacity window) (hg : Grown s s') : Bears s' b capacity window := by
  have hs := h.settled
  have hb : ∀ side, b side = s.markedOf s.levelNodes side := fun side => by rw [← h.marked]; rfl
  cases hg with
  | same => exact h
  | opened base n hbase hl hn ho =>
    obtain ⟨hset, -⟩ := hs.opened_at hl base n hbase hn ho
    refine hset.bears ?_ h.capacity h.window
    -- there are no orders
    have hnil := hs.toRepresents.eq_nil hl
    funext side
    have hempty : ∀ (t : OrderBookV2), t.markedOf s.levelNodes side = [] := by
      refine fun t => List.eq_nil_iff_forall_not_mem.mpr fun o ho => ?_
      obtain ⟨j, hj⟩ := exists_of_mem_sides ho
      rw [markedQueue_eq_nil.mpr (hnil j)] at hj
      cases hj
    rw [hempty, hb, hempty]
  | front k ho =>
    obtain ⟨hset, -⟩ := hs.shifted k ho
    refine hset.bears ?_ h.capacity h.window
    funext side
    have hqueue : (shifted s k).markedQueue (shiftUp k s.levelNodes) = shiftUp k (s.markedQueue s.levelNodes) := by
      funext j
      rw [markedQueue, shiftUp, shiftUp]
      split_ifs with hj
      · rfl
      · refine List.map_congr_left fun y _ => ?_
        have hprice : s.base - k + (j : ℤ) = s.base + (j - k : ℕ) := by omega
        have hknown : (shifted s k).known y = s.known y := by
          show ((s.index.forEachMut _).find (s.arena y).id).any _ = _
          rw [FlatHashMap.find_forEachMut, Option.any_map, known]
        show (⟨⟨_, (shifted s k).known y⟩, s.base - k + (j : ℤ), _⟩ : Order ℤ Mark) = _
        rw [hprice, hknown]
        rfl
    rw [markedOf, hqueue, hs.toRepresents.sides_shifted hs.toLive, hb, markedOf]
  | back n ho =>
    obtain ⟨hset, -⟩ := hs.extended n ho
    refine hset.bears ?_ h.capacity h.window
    funext side
    rw [hb]
    exact hs.toRepresents.sides_extended hs.toLive n (fun j hj => markedQueue_eq_nil.mpr hj) side

/-- How `ensure_index_for_price` ends: it fails for want of a window, refuses the price, or has the level. -/
theorem Settled.ensureIndexForPrice_cases (h : Settled s c) {p : ℤ} {idx : Except Exn ℤ}
    (hr : s.ensureIndexForPrice p = .ok (idx, s')) :
    (∃ s₁, Grown s s₁ ∧ Grown s₁ s') ∧
      (¬WindowFits s.initialWindow ∧ idx = .error .lengthError ∨
        WindowFits s.initialWindow ∧ ((∃ e, idx = .error e ∧ e.offAxis = true) ∨ ∃ k, idx = .ok k)) := by
  rcases placing_of_ensureIndexForPrice hr with ⟨ho, hw, rfl, rfl⟩ | ⟨s₁, hopening, hplace⟩
  · -- without a window the axis stays empty
    have hl := h.unopened ho
    have hg := Grown.opened (p - s.initialWindow.tdiv 2) 0 false hl (fun _ => rfl) fun hf => absurd hf (by decide)
    rw [List.replicate_zero, ← hl, ← ho] at hg
    exact ⟨⟨s, Grown.same, hg⟩, Or.inl ⟨hw, rfl⟩⟩
  · have hfirst : Grown s s₁ ∧ WindowFits s.initialWindow ∧ s₁.haveBase = true := by
      cases hopening with
      | opened ho => exact ⟨Grown.same, h.opened ho, ho⟩
      | fresh ho hw =>
        exact ⟨Grown.opened _ _ true (h.unopened ho) (fun hf => absurd hf (by decide)) fun _ => hw, hw, rfl⟩
    obtain ⟨hg, hw, ho⟩ := hfirst
    cases hplace with
    | found => exact ⟨⟨_, hg, Grown.same⟩, Or.inr ⟨hw, Or.inr ⟨_, rfl⟩⟩⟩
    | belowMax => exact ⟨⟨_, hg, Grown.same⟩, Or.inr ⟨hw, Or.inl ⟨_, rfl, by simp [Exn.offAxis]⟩⟩⟩
    | aboveMax => exact ⟨⟨_, hg, Grown.same⟩, Or.inr ⟨hw, Or.inl ⟨_, rfl, by simp [Exn.offAxis]⟩⟩⟩
    | back => exact ⟨⟨s₁, hg, Grown.back _ ho⟩, Or.inr ⟨hw, Or.inr ⟨_, rfl⟩⟩⟩
    | front hneg =>
      have hpos : 0 ≤ frontShift s₁ p := by
        have := Int.tdiv_nonneg (a := s₁.initialWindow) (b := 4) (by rw [hg.window_eq]; exact hw.1) (by decide)
        rw [frontShift]
        omega
      rw [rebased_eq hpos]
      exact ⟨⟨s₁, hg, Grown.front _ ho⟩, Or.inr ⟨hw, Or.inr ⟨_, rfl⟩⟩⟩

/-! ### Coming to rest -/

/-- The marks of the cells after an order has come to rest: the index finds the new one, and no other one under its id. -/
theorem markedQueue_rested (h : Represents s c) {fl : List ℕ} {bump : ℕ} (k : Claimed s c x fl bump) {side : Side}
    (hp : req.price = s.base + i) :
    (rested s fl bump i x side req).markedQueue (update c i (c i ++ [x])) =
      update (fun j => (s.markedQueue c j).map (Order.rename (Mark.forget [req.id]))) i
        ((s.markedQueue c i).map (Order.rename (Mark.forget [req.id])) ++ [⟨⟨req.id, true⟩, req.price, req.qty.toNat⟩]) := by
  rw [rested_rest h.cursors]
  have hold : ∀ j, ∀ y ∈ c j, (linked s fl bump i x side req).markedAt j y =
      (s.markedAt j y).rename (Mark.forget [req.id]) := by
    intro j y hy
    obtain ⟨h1, h2⟩ := k.linked_of_mem h hy i side req
    have hne : x ≠ y := fun e => k.not_mem j (e ▸ hy)
    have hknown : (linked s fl bump i x side req).known y = (s.known y && decide ((s.arena y).id ∉ [req.id])) := by
      rw [known, h1]
      show ((s.index.set req.id ⟨side, i, x⟩).find (s.arena y).id).any _ = _
      rw [FlatHashMap.find_set, known]
      by_cases hid : (s.arena y).id = req.id
      · simp [hid, hne]
      · simp [hid]
    rw [markedAt, markOf, h1, h2, hknown]
    rfl
  funext j
  rcases eq_or_ne j i with rfl | hj
  · obtain ⟨h1, h2⟩ := k.linked_self h j side req
    have hknown : (linked s fl bump j x side req).known x = true := by
      rw [known, h1]
      show ((s.index.set req.id ⟨side, j, x⟩).find req.id).any _ = _
      rw [FlatHashMap.find_set, if_pos rfl]
      exact decide_eq_true rfl
    rw [update_self, OrderBookV2.markedQueue, update_self, List.map_append, OrderBookV2.markedQueue, List.map_map]
    refine congrArg₂ _ (List.map_congr_left (hold j)) ?_
    show [(linked s fl bump j x side req).markedAt j x] = _
    rw [markedAt, markOf, h1, h2, hknown, hp]
    rfl
  · rw [update_of_ne hj, OrderBookV2.markedQueue, update_of_ne hj, OrderBookV2.markedQueue, List.map_map]
    exact List.map_congr_left (hold j)

/-- **A resting order joins the marked book.** -/
theorem markedOf_rested (h : Settled s c) {fl : List ℕ} {bump : ℕ} (k : Claimed s c x fl bump) (hi : i < s.levels.length)
    (hs : s.FitsAt req.side i) (hp : req.price = s.base + i) :
    (rested s fl bump i x req.side req).markedOf (update c i (c i ++ [x])) = (s.markedOf c).join req req.qty.toNat := by
  let queue (j : ℕ) : List (Order ℤ Mark) := (s.markedQueue c j).map (Order.rename (Mark.forget [req.id]))
  let order : Order ℤ Mark := ⟨⟨req.id, true⟩, req.price, req.qty.toNat⟩
  have hnil : ∀ j, c j = [] → queue j = [] := fun j hj => by
    show (s.markedQueue c j).map _ = []
    rw [markedQueue_eq_nil.mpr hj]
    rfl
  have hprice : ∀ j, ∀ o ∈ queue j, o.price = s.base + j := by
    intro j o ho
    obtain ⟨o', ho', rfl⟩ := List.mem_map.mp ho
    show o'.price = _
    exact price_of_mem_markedQueue ho'
  have hsides : ∀ side, s.sides queue side = (s.markedOf c).forget [req.id] side := fun side => sides_map _ _ side
  have hjoin : (rested s fl bump i x req.side req).sides (update queue i (queue i ++ [order])) req.side = _ ∧ _ :=
    h.sides_rested hi hs hnil hprice hp
  have hqueue : (rested s fl bump i x req.side req).markedQueue (update c i (c i ++ [x])) =
      update queue i (queue i ++ [order]) := markedQueue_rested h.toRepresents k hp
  rw [hsides, hsides] at hjoin
  funext side
  rw [markedOf, hqueue, MarkedBook.join]
  by_cases hside : side = req.side
  · rw [if_pos hside, hside]
    exact hjoin.1
  · have hopp : side = req.side.opposite := by
      cases hr : req.side <;> cases side <;> simp_all [Side.opposite]
    rw [if_neg hside, hopp]
    exact hjoin.2

/-- A full arena is not a refusal of the axis: its text is shorter. -/
theorem offAxis_arenaExhausted : arenaExhausted.offAxis = false := by
  have hshort : ("OrderBookV2 arena exhausted - increase arena_capacity").utf8ByteSize = 53 := by decide +kernel
  have hne : ∀ first rest : String, 53 < first.utf8ByteSize → arenaExhausted ≠ .runtimeError (first ++ rest) := by
    intro first rest hlong he
    have hsize := congrArg String.utf8ByteSize (Exn.runtimeError.inj he)
    rw [hshort, String.utf8ByteSize_append] at hsize
    omega
  rw [Exn.offAxis, decide_eq_false_iff_not, not_or, rebasePastMaxLevels, growthPastMaxLevels]
  exact ⟨hne _ _ (by decide +kernel), hne _ _ (by decide +kernel)⟩

/-- The marked orders, the free cells, and the cells handed out. -/
theorem Bears.cells (h : Bears s b capacity window) : b.size + s.freeList.length = s.arenaBump := by
  have hcells := h.settled.length_orders
  rw [← size_markedOf] at hcells
  rw [← h.marked]
  exact hcells

/-- **An order in a claimed cell has joined the marked book.** -/
theorem Bears.rested (h : Bears s b capacity window) {fl : List ℕ} {bump : ℕ} (k : Claimed s s.levelNodes x fl bump)
    (hi : i < s.levels.length) (hs : s.FitsAt req.side i) (hp : InI64 req.price) (hprice : s.base + (i : ℤ) = req.price) :
    Bears (rested s fl bump i x req.side req) (b.join req req.qty.toNat) capacity window := by
  have hset : Settled (MatchingEngine.rested s fl bump i x req.side req) (update s.levelNodes i (s.levelNodes i ++ [x])) :=
    settled_rested h.settled k hi hs (by rw [hprice]; exact hp)
  obtain ⟨hcapacity, hwindow⟩ : _ ∧ (MatchingEngine.rested s fl bump i x req.side req).initialWindow = _ :=
    rested_params h.settled.cursors
  refine hset.bears ?_ (hcapacity.trans h.capacity) (hwindow.trans h.window)
  rw [markedOf_rested h.settled k hi hs hprice.symm, ← h.marked]
  rfl

theorem Bears.fitsAt (h : Bears s b capacity window) (hstay : StaysBehind b.book req) {k : ℤ} (hl : Leveled s req.price k) :
    s.FitsAt req.side k := by
  have hbook := h.book
  rw [OrderBookV2.book] at hbook
  exact h.settled.fitsAt (by rwa [hbook]) hl

/-- **Coming to rest.** -/
theorem Bears.rest (h : Bears s b capacity window) (hp : InI64 req.price) (hstay : StaysBehind b.book req)
    {thrown : Option Exn} (hr : s.rest req = .ok (thrown, s')) :
    thrown = (b.rest capacity window (refusal thrown) req req.qty.toNat).1 ∧
      Bears s' (b.rest capacity window (refusal thrown) req req.qty.toNat).2 capacity window := by
  have hs := h.settled
  rw [OrderBookV2.rest] at hr
  obtain ⟨⟨idx, s₁⟩, hidx, hr⟩ := bind_eq_ok.mp hr
  obtain ⟨c₁, hre, hleveled, -⟩ := (hs.ensureIndexForPrice req.price).elim hidx
  obtain ⟨⟨s₀, hg, hg'⟩, hcase⟩ := hs.ensureIndexForPrice_cases hidx
  have h₁ : Bears s₁ b capacity window := (h.grown hg).grown hg'
  rw [h.window] at hcase
  rcases hcase with ⟨hw, rfl⟩ | ⟨hw, ⟨e, rfl, hoff⟩ | ⟨k, rfl⟩⟩
  · -- there is no price axis
    cases hr
    rw [MarkedBook.rest_unopened hw]
    exact ⟨rfl, h₁⟩
  · -- the axis refuses the price
    cases hr
    have hrefusal : refusal (some e) = some e := by simp [refusal, hoff]
    rw [hrefusal, MarkedBook.rest_refused hw]
    exact ⟨rfl, h₁⟩
  · have hl := hleveled k rfl
    have hs₁ := h₁.settled
    obtain ⟨i, rfl⟩ := Int.eq_ofNat_of_zero_le hl.nonneg
    have hi : i < s₁.levels.length := by
      have hlt : (i : ℤ) < s₁.levels.length := hl.lt
      omega
    have hcells := h₁.cells
    have hcap := h₁.capacity
    obtain ⟨⟨thrown', s₂⟩, hpush, hr⟩ := bind_eq_ok.mp hr
    rcases hs₁.toRepresents.pushBackOrder hi req.side req with ⟨x, fl, bump, hlink, hk⟩ | ⟨hfull, hf, hbump⟩
    · rw [hlink] at hpush
      cases hpush
      cases hr
      -- a cell was free
      have hcount := hk.count
      have hle := hk.bump_le
      have hrefusal : refusal none = none := rfl
      rw [hrefusal, MarkedBook.rest_accepted hw, if_pos (by omega)]
      exact ⟨rfl, h₁.rested hk hi (h₁.fitsAt hstay hl) hp hl.price⟩
    · rw [hfull] at hpush
      cases hpush
      cases hr
      rw [hf, List.length_nil] at hcells
      have hrefusal : refusal (some arenaExhausted) = none := by
        rw [refusal, Option.filter_some, offAxis_arenaExhausted]
        rfl
      rw [hrefusal, MarkedBook.rest_accepted hw, if_neg (by omega)]
      exact ⟨rfl, h₁⟩

/-! ### Calls -/

theorem MarkedBook.forget_nil (b : MarkedBook) : b.forget [] = b := by
  have hmark : ∀ m : Mark, m.forget [] = m := fun m => by simp [Mark.forget]
  funext side
  rw [MarkedBook.forget]
  refine (List.map_congr_left fun o _ => ?_).trans (List.map_id _)
  rw [Order.rename, hmark]
  rfl

/-- An incoming order of no shares takes nothing. -/
theorem MarkedBook.taken_zero (b : MarkedBook) (hq : req.qty.toNat = 0) : b.taken req = b := by
  have hleft : b.left req = b req.side.opposite := by rw [MarkedBook.left, hq, fill_zero]
  have hsides : (fun side => if side = req.side then b side else b req.side.opposite) = b := by
    funext side
    split_ifs with hside
    · rfl
    · cases hr : req.side <;> cases side <;> simp_all [Side.opposite]
  rw [MarkedBook.taken, MarkedBook.usedUp, hleft, Nat.sub_self, List.take_zero, List.map_nil, hsides,
    MarkedBook.forget_nil]

/-- **Matching without resting.** -/
theorem Bears.add_taker (h : Bears s b capacity window) {r : AddResult}
    (hr : (s.match_ req [] >>= fun x => .ok ⟨x.1, x.2.2, none⟩) = Except.ok r) :
    (r.trades, r.thrown) = (b.book.trades req, none) ∧ Bears r.book (b.taken req) capacity window := by
  obtain ⟨⟨s₁, taker, ts⟩, hrun, hr⟩ := bind_eq_ok.mp hr
  cases hr
  obtain ⟨s₂, taker', ts', c', hrun', hm⟩ := h.settled.match_ req []
  rw [hrun] at hrun'
  obtain ⟨rfl, -, rfl⟩ : s₁ = s₂ ∧ taker = taker' ∧ ts = [] ++ ts' := by simpa using hrun'
  refine ⟨?_, h.match_ hrun⟩
  rw [← h.book, hm.trades]
  rfl

theorem Bears.add_fok (h : Bears s b capacity window) (htype : req.type = .fok) {r : AddResult} (hr : s.add req = .ok r)
    (refused : Option Exn) :
    (r.trades, r.thrown) = ((b.add capacity window refused req).1, (b.add capacity window refused req).2.1) ∧
      Bears r.book (b.add capacity window refused req).2.2 capacity window := by
  have hadd : b.add capacity window refused req =
      if b.book.coversWrapping req then (b.book.trades req, none, b.taken req) else ([], none, b) := by
    rw [MarkedBook.add, htype]
  have hzero : req.qty.toNat = 0 → ∀ covered : Bool,
      (if covered then (b.book.trades req, (none : Option Exn), b.taken req) else ([], none, b)) = ([], none, b) := by
    intro hq covered
    rw [(MatchingEngine.taken_zero b.book hq).1, b.taken_zero hq]
    exact ite_self _
  rw [OrderBookV2.add, htype] at hr
  simp only [if_true, reduceCtorEq, if_false, false_and] at hr
  obtain ⟨refusing, htest, hr⟩ := bind_eq_ok.mp hr
  obtain ⟨covered, hcov, htest⟩ := bind_eq_ok.mp htest
  cases htest
  have hcovers := (h.settled.canFullyFill (by rw [htype]; decide)).elim hcov
  have hbook : (s.bookOf s.levelNodes).coversWrapping req = b.book.coversWrapping req := by
    rw [← h.book]
    rfl
  rw [hbook] at hcovers
  cases covered with
  | false =>
    cases hr
    by_cases hz : req.qty = 0
    · rw [hadd, hzero (toNat_eq_zero.mpr hz)]
      exact ⟨rfl, h⟩
    · rw [hadd, ← hcovers hz]
      exact ⟨rfl, h⟩
  | true =>
    have htaken := h.add_taker hr
    by_cases hz : req.qty = 0
    · rw [(MatchingEngine.taken_zero b.book (toNat_eq_zero.mpr hz)).1, b.taken_zero (toNat_eq_zero.mpr hz)] at htaken
      rw [hadd, hzero (toNat_eq_zero.mpr hz)]
      exact htaken
    · rw [hadd, ← hcovers hz]
      exact htaken

/-- What a limit order leaves comes to rest after it has matched. -/
theorem Bears.add_limit (h : Bears s b capacity window) (htype : req.type = .limit) (hp : InI64 req.price) {r : AddResult}
    (hr : s.add req = .ok r) :
    (r.trades, r.thrown) =
        ((b.add capacity window (refusal r.thrown) req).1, (b.add capacity window (refusal r.thrown) req).2.1) ∧
      Bears r.book (b.add capacity window (refusal r.thrown) req).2.2 capacity window := by
  have hmarket : req.type ≠ .market := by rw [htype]; decide
  have hadd : ∀ refused, b.add capacity window refused req =
      if 0 < (b.book.take req).left then
        (b.book.trades req, (b.taken req).rest capacity window refused req (b.book.take req).left)
      else (b.book.trades req, none, b.taken req) := by
    intro refused
    rw [MarkedBook.add, htype]
  rw [OrderBookV2.add, htype] at hr
  simp only [reduceCtorEq, if_false, ok_bind, Bool.false_eq_true, true_and] at hr
  obtain ⟨s₁, taker, ts, c₁, hrun, hm⟩ := h.settled.match_ req []
  have h₁ := h.match_ hrun
  obtain ⟨htaker, hqty⟩ := hm.taker
  have hbook : s.bookOf s.levelNodes = b.book := h.book
  have htrades : [] ++ ts = b.book.trades req := by rw [List.nil_append, hm.trades, hbook]
  rw [hbook] at hqty
  rw [hrun, ok_bind] at hr
  dsimp only at hr
  by_cases hpos : 0 < taker.qty
  · have hleft : 0 < (b.book.take req).left := hqty ▸ toNat_pos.mpr hpos
    rw [if_pos hpos] at hr
    obtain ⟨⟨thrown, s₂⟩, hrest, hr⟩ := bind_eq_ok.mp hr
    cases hr
    have hstay : StaysBehind (b.taken req).book taker := by
      rw [MarkedBook.taken_book, htaker]
      exact staysBehind_taken b.book hmarket hleft
    have hres := h₁.rest (by rw [htaker]; exact hp) hstay hrest
    -- the taker differs from the request in its quantity only
    have hreq : (b.taken req).rest capacity window (refusal thrown) taker taker.qty.toNat =
        (b.taken req).rest capacity window (refusal thrown) req (b.book.take req).left := by
      rw [hqty, htaker]
      rfl
    rw [hreq] at hres
    rw [hadd, if_pos hleft, htrades]
    exact ⟨congrArg (Prod.mk _) hres.1, hres.2⟩
  · rw [if_neg hpos] at hr
    cases hr
    rw [hadd, if_neg (fun hleft => hpos (toNat_pos.mp (hqty.symm ▸ hleft))), htrades]
    exact ⟨rfl, h₁⟩

/-- **`add`.** -/
theorem Bears.add (h : Bears s b capacity window) (hp : InI64 req.price) {r : AddResult} (hr : s.add req = .ok r) :
    (r.trades, r.thrown) =
        ((b.add capacity window (refusal r.thrown) req).1, (b.add capacity window (refusal r.thrown) req).2.1) ∧
      Bears r.book (b.add capacity window (refusal r.thrown) req).2.2 capacity window := by
  cases htype : req.type with
  | limit => exact h.add_limit htype hp hr
  | fok => exact h.add_fok htype hr _
  | cancel =>
    rw [OrderBookV2.add, htype] at hr
    obtain ⟨⟨found, s₁⟩, hrun, hr⟩ := bind_eq_ok.mp hr
    cases hr
    rw [MarkedBook.add, htype]
    exact ⟨rfl, (h.cancel hrun).2⟩
  | postOnly =>
    have hmarket : req.type ≠ .market := by rw [htype]; decide
    have hbook : s.bookOf s.levelNodes = b.book := h.book
    have hadd : ∀ refused, b.add capacity window refused req =
        if b.book.crosses req then ([], none, b) else ([], b.rest capacity window refused req req.qty.toNat) := by
      intro refused
      rw [MarkedBook.add, htype]
    rw [OrderBookV2.add, htype] at hr
    dsimp only at hr
    rw [h.settled.wouldCross hmarket, ok_bind, hbook] at hr
    rw [hadd]
    cases hcross : b.book.crosses req with
    | true =>
      rw [hcross, if_pos rfl] at hr
      cases hr
      exact ⟨rfl, h⟩
    | false =>
      rw [hcross, if_neg (by decide)] at hr
      obtain ⟨⟨thrown, s₁⟩, hrest, hr⟩ := bind_eq_ok.mp hr
      cases hr
      have hres := h.rest hp (staysBehind_of_not_crosses hmarket hcross) hrest
      rw [if_neg (by decide)]
      exact ⟨congrArg (Prod.mk _) hres.1, hres.2⟩
  | market =>
    rw [OrderBookV2.add, htype] at hr
    simp only [reduceCtorEq, if_false, ok_bind, Bool.false_eq_true, false_and] at hr
    rw [MarkedBook.add, htype]
    exact h.add_taker hr
  | ioc =>
    rw [OrderBookV2.add, htype] at hr
    simp only [reduceCtorEq, if_false, ok_bind, Bool.false_eq_true, false_and] at hr
    rw [MarkedBook.add, htype]
    exact h.add_taker hr

/-- **One call**, whatever its id: the engine answers, throws and goes on as the marked book does. -/
theorem Bears.call (h : Bears s b capacity window) {op : Call} (hop : op.InRange) {r : CallResult}
    (hr : s.call op = .ok r) :
    (r.answer, r.thrown) =
        ((b.call capacity window (refusal r.thrown) op).1, (b.call capacity window (refusal r.thrown) op).2.1) ∧
      Bears r.book (b.call capacity window (refusal r.thrown) op).2.2 capacity window := by
  cases op with
  | add req =>
    obtain ⟨a, hadd, hr⟩ := bind_eq_ok.mp hr
    cases hr
    obtain ⟨h1, h2⟩ := h.add hop hadd
    rw [Prod.mk.injEq] at h1
    refine ⟨?_, h2⟩
    rw [MarkedBook.call, ← h1.1]
    exact congrArg (Prod.mk _) h1.2
  | cancel id =>
    obtain ⟨⟨found, s₁⟩, hrun, hr⟩ := bind_eq_ok.mp hr
    cases hr
    obtain ⟨h1, h2⟩ := h.cancel hrun
    refine ⟨?_, h2⟩
    rw [MarkedBook.call, ← h1]
  | reduce id delta =>
    obtain ⟨⟨found, s₁⟩, hrun, hr⟩ := bind_eq_ok.mp hr
    cases hr
    obtain ⟨h1, h2⟩ := h.reduce hrun
    refine ⟨?_, h2⟩
    rw [MarkedBook.call, ← h1]

/-- A new book has no orders. -/
theorem bears_new (capacity : UInt32) (window : ℤ) :
    Bears (OrderBookV2.new capacity window) (fun _ => []) capacity.toNat window := by
  refine (settled_new capacity window).bears ?_ rfl rfl
  funext side
  cases side <;> rfl

/-- **Every state of a book has a marked book**, whatever ids the calls used. -/
theorem Reached.bears {capacity : UInt32} (h : Reached capacity window s) :
    ∃ b, Bears s b capacity.toNat window := by
  induction h with
  | new => exact ⟨_, bears_new capacity window⟩
  | call hs hop hr ih =>
    obtain ⟨b, hb⟩ := ih
    exact ⟨_, (hb.call hop hr).2⟩

end MatchingEngine
