import MatchingEngine.Core.Runs
import MatchingEngine.Core.Conservation
import MatchingEngine.V1.OrderBook

/-!
# The two books agree

The first book stands for the same reference book as the second one: `Sound` is its
invariant, and each of its calls is a call of the reference book whose fill-or-kill test
sums 64-bit words (`Sound.call`). So is each call of the second, and the two show the same
(`v1_agrees`), also when those sums wrap.
-/

namespace MatchingEngine.V1

open Foundation Function LevelMap OrderBook

/-! ### What the first book stands for -/

/-- An order, at the price of its level. -/
def toOrder (price : ℤ) (o : OrderRequest) : Order ℤ OrderId := ⟨o.id, price, o.qty.toNat⟩

/-- The resting orders. -/
def OrderBook.book (b : OrderBook) : Book := ⟨sideOf toOrder b.bids, sideOf toOrder b.asks⟩

/-- **The invariant** of the first book. -/
structure Sound (b : OrderBook) : Prop where
  /-- Both maps are in order, without empty queues. -/
  ordered : ∀ side, Ordered side.ahead (b.levels side)
  /-- The index tells where each order rests. -/
  index : ∀ id side p, b.index id = some (side, p) ↔ ∃ o ∈ b.book.side side, o.id = id ∧ o.price = p

theorem book_side (b : OrderBook) (side : Side) : b.book.side side = sideOf toOrder (b.levels side) := by
  cases side <;> rfl

theorem levels_withLevels (b : OrderBook) (side side' : Side) (m : LevelMap ℤ OrderRequest) :
    (b.withLevels side m).levels side' = if side' = side then m else b.levels side' := by
  cases side <;> cases side' <;> rfl

theorem ordered_withLevels {b : OrderBook} (h : ∀ side, Ordered side.ahead (b.levels side)) {side : Side}
    {m : LevelMap ℤ OrderRequest} (hm : Ordered side.ahead m) (index : Index) (side' : Side) :
    Ordered side'.ahead (({ b.withLevels side m with index := index } : OrderBook).levels side') := by
  have hlevels : ({ b.withLevels side m with index := index } : OrderBook).levels side' =
      (b.withLevels side m).levels side' := by cases side' <;> rfl
  rw [hlevels, levels_withLevels]
  split_ifs with hs
  · rw [hs]
    exact hm
  · exact h side'

theorem book_withLevels (b : OrderBook) (side : Side) (m : LevelMap ℤ OrderRequest) (index : Index) :
    OrderBook.book { b.withLevels side m with index := index } = b.book.withSide side (sideOf toOrder m) := by
  cases side <;> rfl

theorem ahead_strictTotal (side : Side) : StrictTotal side.ahead := by
  cases side with
  | buy =>
    refine ⟨fun p => decide_eq_false (lt_irrefl p), fun h h' => ?_, fun h h' => ?_⟩
    · exact decide_eq_true (lt_trans (of_decide_eq_true h') (of_decide_eq_true h))
    · exact le_antisymm (not_lt.mp (of_decide_eq_false h)) (not_lt.mp (of_decide_eq_false h'))
  | sell =>
    refine ⟨fun p => decide_eq_false (lt_irrefl p), fun h h' => ?_, fun h h' => ?_⟩
    · exact decide_eq_true (lt_trans (of_decide_eq_true h) (of_decide_eq_true h'))
    · exact le_antisymm (not_lt.mp (of_decide_eq_false h')) (not_lt.mp (of_decide_eq_false h))

theorem toOrder_price (p : ℤ) (o : OrderRequest) : (toOrder p o).price = p := rfl

theorem beyondLimit_eq (taker : OrderRequest) (p : ℤ) : beyondLimit taker p = !taker.accepts p :=
  MatchingEngine.beyondLimit_eq taker p

/-- A new book is sound, and stands for the book without orders. -/
theorem sound_new : Sound OrderBook.new ∧ OrderBook.new.book = Book.empty := by
  refine ⟨⟨fun side => ?_, fun id side p => ?_⟩, rfl⟩
  · cases side <;> exact ordered_nil
  · cases side <;> simp [OrderBook.new, OrderBook.book, Book.side]

/-! ### Matching -/

/-- The ids that are no longer there are erased from the index. -/
def ErasedBetween (before after : List OrderId) (index index' : Index) : Prop :=
  ∀ id, index' id = if id ∈ before ∧ id ∉ after then none else index id

/-- What filling from some orders leads to. -/
structure Fills {α : Type} (read : α → List (Order ℤ OrderId)) (os : List (Order ℤ OrderId)) (taker : OrderRequest)
    (index : Index) (r : Swept α) : Prop where
  /-- The trades are the fills. -/
  trades : r.trades = (fill taker.accepts taker.qty.toNat os).fills.map (toTrade taker.id)
  /-- The taker keeps what they leave. -/
  keeps : r.taker = { taker with qty := r.taker.qty } ∧
    r.taker.qty.toNat = (fill taker.accepts taker.qty.toNat os).left
  /-- And so do the orders. -/
  left : read r.left = (fill taker.accepts taker.qty.toNat os).rest
  /-- The index forgets what is gone. -/
  index : (os.map (·.id)).Nodup → ErasedBetween (os.map (·.id)) ((read r.left).map (·.id)) index r.index

theorem erasedBetween_refl (ids : List OrderId) (index : Index) : ErasedBetween ids ids index index := fun id => by
  rw [if_neg]
  exact fun h => h.2 h.1

/-- Nothing is taken. -/
theorem Fills.refl {α : Type} {read : α → List (Order ℤ OrderId)} {os : List (Order ℤ OrderId)} {taker : OrderRequest}
    {index : Index} {a : α} (ha : read a = os) (hf : fill taker.accepts taker.qty.toNat os = ⟨[], taker.qty.toNat, os⟩) :
    Fills read os taker index ⟨[], taker, a, index⟩ where
  trades := by rw [hf]; rfl
  keeps := ⟨rfl, by rw [hf]⟩
  left := by rw [hf, ha]
  index := fun _ => by
    rw [ha]
    exact erasedBetween_refl _ _

/-- One id is gone, and then some more. -/
theorem ErasedBetween.cons {id : OrderId} {before after : List OrderId} {index index' : Index} (hid : id ∉ before)
    (hsub : after ⊆ before) (h : ErasedBetween before after (update index id none) index') :
    ErasedBetween (id :: before) after index index' := by
  intro id'
  rw [h id']
  by_cases hcase : id' = id
  · subst hcase
    rw [if_neg fun hc => hid hc.1, update_self, if_pos ⟨List.mem_cons_self, fun ha => hid (hsub ha)⟩]
  · rw [update_of_ne hcase]
    simp only [List.mem_cons, hcase, false_or]

/-- One after the other. -/
theorem ErasedBetween.append {as bs as' bs' : List OrderId} {index index₁ index₂ : Index}
    (hnd : (as ++ bs).Nodup) (has : as' ⊆ as) (hbs : bs' ⊆ bs) (h : ErasedBetween as as' index index₁)
    (h' : ErasedBetween bs bs' index₁ index₂) : ErasedBetween (as ++ bs) (as' ++ bs') index index₂ := by
  have hdis := (List.nodup_append.mp hnd).2.2
  intro id
  rw [h' id, h id]
  by_cases ha : id ∈ as
  · have hb : id ∉ bs := fun hb => hdis id ha id hb rfl
    have hb' : id ∉ bs' := fun hb' => hb (hbs hb')
    simp [ha, hb, hb']
  · have ha' : id ∉ as' := fun ha' => ha (has ha')
    simp [ha, ha']

/-- The ids that a fill leaves were there. -/
theorem fill_rest_ids (ok : ℤ → Bool) (q : ℕ) (os : List (Order ℤ OrderId)) :
    (fill ok q os).rest.map (·.id) ⊆ os.map (·.id) :=
  (fill_rest_suffix (·.id) (fun _ _ => rfl) ok q os).subset

/-- The maker keeps a remainder, and nothing is left of the taker. -/
theorem Fills.part {p : ℤ} {taker maker : OrderRequest} (hok : taker.accepts p = true) (hpos : 0 < taker.qty.toNat)
    (hlt : taker.qty.toNat < maker.qty.toNat) (queue : List OrderRequest) (index : Index) :
    Fills (List.map (toOrder p)) ((maker :: queue).map (toOrder p)) taker index
      ⟨[{ makerId := maker.id, takerId := taker.id, price := p, qty := taker.qty }],
        { taker with qty := taker.qty - taker.qty }, { maker with qty := maker.qty - taker.qty } :: queue, index⟩ := by
  have hfill : fill taker.accepts taker.qty.toNat ((maker :: queue).map (toOrder p)) =
      ⟨[⟨maker.id, p, taker.qty.toNat⟩], 0, ⟨maker.id, p, maker.qty.toNat - taker.qty.toNat⟩ ::
        queue.map (toOrder p)⟩ := fill_cons_gt hpos hok hlt
  have hleft : ({ maker with qty := maker.qty - taker.qty } :: queue).map (toOrder p) =
      ⟨maker.id, p, maker.qty.toNat - taker.qty.toNat⟩ :: queue.map (toOrder p) := by
    rw [List.map_cons, toOrder, UInt64.toNat_sub_of_le _ _ (UInt64.le_iff_toNat_le.mpr hlt.le)]
  refine ⟨?_, ⟨rfl, ?_⟩, ?_, fun _ => ?_⟩
  · rw [hfill]
    simp [toTrade]
  · rw [hfill, UInt64.sub_self]
    rfl
  · rw [hfill, hleft]
  · dsimp only
    rw [hleft]
    exact erasedBetween_refl _ _

/-- The maker is filled, and what is left of the taker goes on to the next one. -/
theorem Fills.cons {p : ℤ} {taker maker : OrderRequest} (hok : taker.accepts p = true) (hpos : 0 < taker.qty.toNat)
    (hge : maker.qty.toNat ≤ taker.qty.toNat) {queue : List OrderRequest} {index : Index}
    {r : Swept (List OrderRequest)} (h : Fills (List.map (toOrder p)) (queue.map (toOrder p))
      { taker with qty := taker.qty - maker.qty } (update index maker.id none) r) :
    Fills (List.map (toOrder p)) ((maker :: queue).map (toOrder p)) taker index
      { r with trades := { makerId := maker.id, takerId := taker.id, price := p, qty := maker.qty } :: r.trades } := by
  have hsub : (taker.qty - maker.qty).toNat = taker.qty.toNat - maker.qty.toNat :=
    UInt64.toNat_sub_of_le _ _ (UInt64.le_iff_toNat_le.mpr hge)
  have hfill : fill taker.accepts taker.qty.toNat ((maker :: queue).map (toOrder p)) =
      (let r := fill taker.accepts (taker.qty - maker.qty).toNat (queue.map (toOrder p))
      ⟨⟨maker.id, p, maker.qty.toNat⟩ :: r.fills, r.left, r.rest⟩) := by
    rw [hsub]
    exact fill_cons_le hpos hok hge
  have hacc : ({ taker with qty := taker.qty - maker.qty } : OrderRequest).accepts = taker.accepts := rfl
  refine ⟨?_, ⟨h.keeps.1, ?_⟩, ?_, fun hnd => ?_⟩
  · rw [hfill]
    dsimp only
    rw [h.trades, hacc]
    simp [toTrade]
  · rw [hfill]
    exact h.keeps.2
  · rw [hfill]
    exact h.left
  · rw [List.map_cons, List.map_cons, List.nodup_cons] at hnd
    refine ErasedBetween.cons hnd.1 ?_ (h.index hnd.2)
    dsimp only
    rw [h.left]
    exact fill_rest_ids _ _ _

/-- **The inner loop is a greedy fill** of its queue. -/
theorem fillQueue_fills {p : ℤ} {taker : OrderRequest} (hok : taker.accepts p = true) (queue : List OrderRequest)
    (index : Index) :
    Fills (List.map (toOrder p)) (queue.map (toOrder p)) taker index (fillQueue p queue taker index) := by
  induction queue generalizing taker index with
  | nil => exact Fills.refl rfl rfl
  | cons maker queue ih =>
    rw [fillQueue]
    by_cases hq : 0 < taker.qty
    · rw [if_pos hq]
      have hpos := toNat_pos.mpr hq
      dsimp only
      rcases Nat.lt_or_ge taker.qty.toNat maker.qty.toNat with hlt | hge
      · -- the maker keeps a remainder
        have hmin : min taker.qty maker.qty = taker.qty := by
          rw [← UInt64.toNat_inj, toNat_min]
          exact Nat.min_eq_left hlt.le
        have hne : ¬ maker.qty - taker.qty = 0 := by
          rw [← toNat_eq_zero, UInt64.toNat_sub_of_le _ _ (UInt64.le_iff_toNat_le.mpr hlt.le)]
          omega
        rw [hmin, if_neg hne]
        exact Fills.part hok hpos hlt queue index
      · -- the maker is filled
        have hmin : min taker.qty maker.qty = maker.qty := by
          rw [← UInt64.toNat_inj, toNat_min]
          exact Nat.min_eq_right hge
        rw [hmin, if_pos (UInt64.sub_self _)]
        exact Fills.cons hok hpos hge
          (ih (show ({ taker with qty := taker.qty - maker.qty } : OrderRequest).accepts p = true from hok) _)
    · have hz : taker.qty.toNat = 0 := by
        rw [← toNat_pos] at hq
        omega
      rw [if_neg hq]
      refine Fills.refl rfl ?_
      rw [hz, fill_zero]

/-- A taker without quantity, or one that does not reach the best price, takes nothing. -/
theorem Fills.stay {side : Side} {m : LevelMap ℤ OrderRequest} (h : Ordered side.ahead m) {taker : OrderRequest}
    (hstop : ¬ 0 < taker.qty ∨ ∀ l ∈ m.head?, taker.accepts l.1 = false) (index : Index) :
    Fills (sideOf toOrder) (sideOf toOrder m) taker index ⟨[], taker, m, index⟩ := by
  refine Fills.refl rfl ?_
  rcases hstop with hq | hacc
  · have hz : taker.qty.toNat = 0 := by
      rw [← toNat_pos] at hq
      omega
    rw [hz, fill_zero]
  · refine fill_stop fun o ho => ?_
    have hhead := h.head_price toOrder_price
    rw [Option.mem_def.mp ho, Option.map_some] at hhead
    obtain ⟨l, hl, hp⟩ := Option.map_eq_some_iff.mp hhead.symm
    rw [← hp]
    exact hacc l hl

/-- A taker that accepts a price accepts all orders of the level. -/
theorem accepts_queue {p : ℤ} {taker : OrderRequest} (hok : taker.accepts p = true) (queue : List OrderRequest) :
    ∀ o ∈ queue.map (toOrder p), taker.accepts o.price = true := by
  intro o ho
  obtain ⟨x, -, rfl⟩ := List.mem_map.mp ho
  exact hok

/-- A level runs empty, and what is left of the taker goes on behind it. -/
theorem Fills.through {p : ℤ} {queue : List OrderRequest} {m : LevelMap ℤ OrderRequest} {taker : OrderRequest}
    {index : Index} (hok : taker.accepts p = true) {r : Swept (List OrderRequest)}
    (h : Fills (List.map (toOrder p)) (queue.map (toOrder p)) taker index r) (hempty : r.left = [])
    {r' : Swept (LevelMap ℤ OrderRequest)} (h' : Fills (sideOf toOrder) (sideOf toOrder m) r.taker r.index r') :
    Fills (sideOf toOrder) (sideOf toOrder ((p, queue) :: m)) taker index { r' with trades := r.trades ++ r'.trades } := by
  have hrest : (fill taker.accepts taker.qty.toNat (queue.map (toOrder p))).rest = [] := by
    rw [← h.left, hempty]
    rfl
  have hacc : r.taker.accepts = taker.accepts := by
    rw [h.keeps.1]
    rfl
  have hid : r.taker.id = taker.id := by rw [h.keeps.1]
  have hsplit := fill_append (sideOf toOrder m) (accepts_queue hok queue) taker.qty.toNat
  dsimp only at hsplit
  rw [hrest, List.nil_append, ← h.keeps.2, ← hacc] at hsplit
  rw [sideOf_cons]
  refine ⟨?_, ⟨?_, ?_⟩, ?_, fun hnd => ?_⟩
  · rw [← hacc, hsplit, hacc, List.map_append, ← h.trades]
    dsimp only
    rw [h'.trades, hid, hacc]
  · dsimp only
    rw [h'.keeps.1, h.keeps.1]
  · rw [← hacc, hsplit]
    exact h'.keeps.2
  · rw [← hacc, hsplit]
    exact h'.left
  · rw [List.map_append] at hnd ⊢
    obtain ⟨hnd1, hnd2, -⟩ := List.nodup_append.mp hnd
    have h1 := h.index hnd1
    rw [hempty] at h1
    refine ErasedBetween.append hnd (List.nil_subset _) ?_ h1 (h'.index hnd2)
    rw [h'.left]
    exact fill_rest_ids _ _ _

/-- Something is left of a level, so nothing is left of the taker. -/
theorem Fills.within {p : ℤ} {queue : List OrderRequest} {m : LevelMap ℤ OrderRequest} {taker : OrderRequest}
    {index : Index} (hok : taker.accepts p = true) {r : Swept (List OrderRequest)}
    (h : Fills (List.map (toOrder p)) (queue.map (toOrder p)) taker index r) (hleft : r.left ≠ []) :
    Fills (sideOf toOrder) (sideOf toOrder ((p, queue) :: m)) taker index { r with left := (p, r.left) :: m } := by
  have hz : (fill taker.accepts taker.qty.toNat (queue.map (toOrder p))).left = 0 := by
    rcases fill_left_or_rest (accepts_queue hok queue) taker.qty.toNat with hz | he
    · exact hz
    · rw [← h.left, List.map_eq_nil_iff] at he
      exact absurd he hleft
  have hsplit := fill_append (sideOf toOrder m) (accepts_queue hok queue) taker.qty.toNat
  dsimp only at hsplit
  rw [hz, fill_zero, List.append_nil] at hsplit
  rw [sideOf_cons]
  refine ⟨?_, ⟨h.keeps.1, ?_⟩, ?_, fun hnd => ?_⟩
  · rw [hsplit]
    exact h.trades
  · rw [hsplit, ← hz]
    exact h.keeps.2
  · rw [hsplit, sideOf_cons]
    dsimp only
    rw [h.left]
  · rw [List.map_append] at hnd
    dsimp only
    rw [sideOf_cons, List.map_append, List.map_append]
    refine ErasedBetween.append hnd ?_ (List.Subset.refl _) (h.index (List.nodup_append.mp hnd).1)
      (erasedBetween_refl _ _)
    dsimp only
    rw [h.left]
    exact fill_rest_ids _ _ _

/-- **The outer loop is a greedy fill** of its side. -/
theorem matchAgainst_fills {side : Side} {m : LevelMap ℤ OrderRequest} (h : Ordered side.ahead m)
    (taker : OrderRequest) (index : Index) :
    Fills (sideOf toOrder) (sideOf toOrder m) taker index (matchAgainst m taker index) ∧
      Ordered side.ahead (matchAgainst m taker index).left := by
  induction m generalizing taker index with
  | nil => exact ⟨Fills.refl rfl rfl, ordered_nil⟩
  | cons l m ih =>
    obtain ⟨p, queue⟩ := l
    obtain ⟨hbehind, -, hm⟩ := ordered_cons.mp h
    rw [matchAgainst]
    by_cases hq : 0 < taker.qty
    · rw [if_pos hq]
      by_cases hb : beyondLimit taker p = true
      · rw [if_pos hb]
        rw [beyondLimit_eq, Bool.not_eq_true'] at hb
        refine ⟨Fills.stay h (Or.inr ?_) index, h⟩
        intro l hl
        rw [List.head?_cons, Option.mem_some_iff] at hl
        rw [← hl]
        exact hb
      · rw [if_neg hb]
        have hok : taker.accepts p = true := by simpa [beyondLimit_eq] using hb
        have hfirst := fillQueue_fills hok queue index
        dsimp only
        by_cases hleft : (fillQueue p queue taker index).left = []
        · -- the loop goes on behind the level
          rw [if_pos hleft]
          obtain ⟨hrec, hord⟩ := ih hm (fillQueue p queue taker index).taker (fillQueue p queue taker index).index
          exact ⟨hfirst.through hok hleft hrec, hord⟩
        · -- the taker is filled
          rw [if_neg hleft]
          exact ⟨hfirst.within hok hleft, ordered_cons.mpr ⟨hbehind, hleft, hm⟩⟩
    · rw [if_neg hq]
      exact ⟨Fills.stay h (Or.inl hq) index, h⟩

variable {b : OrderBook} {taker : OrderRequest}

/-- An order whose id the index knows rests where the index says. -/
theorem Sound.rests_at (h : Sound b) {id : OrderId} {side side' : Side} {p : ℤ} (hi : b.index id = some (side, p))
    {o : Order ℤ OrderId} (ho : o ∈ b.book.side side') (he : o.id = id) : side' = side ∧ o.price = p := by
  have hat := (h.index o.id side' o.price).mpr ⟨o, ho, rfl, rfl⟩
  rw [he, hi, Option.some.injEq, Prod.mk.injEq] at hat
  exact ⟨hat.1.symm, hat.2.symm⟩

/-- An id that the index does not know is not there. -/
theorem Sound.not_mem (h : Sound b) {id : OrderId} (hi : b.index id = none) : id ∉ b.book.ids := by
  intro hmem
  obtain ⟨o, ho, rfl⟩ := List.mem_map.mp hmem
  obtain ⟨side, ho⟩ := mem_orders_iff.mp ho
  have hat := (h.index o.id side o.price).mpr ⟨o, ho, rfl, rfl⟩
  rw [hi] at hat
  cases hat

/-- The index after matching tells where what is left rests. -/
theorem Sound.index_taken (h : Sound b) {index : Index}
    (he : ErasedBetween ((b.book.side taker.side.opposite).map (·.id)) ((b.book.take taker).rest.map (·.id)) b.index index)
    (id : OrderId) (side : Side) (p : ℤ) :
    index id = some (side, p) ↔ ∃ o ∈ (b.book.taken taker).side side, o.id = id ∧ o.price = p := by
  -- an id that is on the other side is on no side else
  have hone : ∀ {side side' o o'}, o ∈ b.book.side side → o' ∈ b.book.side side' → o.id = o'.id →
      side = side' ∧ o.price = o'.price := fun {side side' o o'} ho ho' hid =>
    h.rests_at ((h.index o'.id side' o'.price).mpr ⟨o', ho', rfl, rfl⟩) ho hid
  rw [he id]
  constructor
  · intro hi
    split_ifs at hi with hgone
    obtain ⟨o, ho, rfl, rfl⟩ := (h.index id side p).mp hi
    by_cases hside : side = taker.side.opposite
    · subst hside
      have hstays : o.id ∈ (b.book.take taker).rest.map (·.id) := by
        by_contra hc
        exact hgone ⟨List.mem_map_of_mem ho, hc⟩
      obtain ⟨o', ho', hid⟩ := List.mem_map.mp hstays
      have ho' : o' ∈ (b.book.taken taker).side taker.side.opposite := by
        rw [Book.taken, side_withSide]
        exact ho'
      obtain ⟨o'', ho'', hid', hp⟩ := mem_side_taken ho'
      refine ⟨o', ho', hid, ?_⟩
      rw [← hp]
      exact (hone ho'' ho (hid'.trans hid)).2
    · refine ⟨o, ?_, rfl, rfl⟩
      rw [Book.taken, side_withSide_eq, if_neg hside]
      exact ho
  · rintro ⟨o, ho, rfl, rfl⟩
    obtain ⟨o', ho', hid, hp⟩ := mem_side_taken ho
    rw [if_neg, ← hid, ← hp]
    · exact (h.index o'.id side o'.price).mpr ⟨o', ho', rfl, rfl⟩
    · rintro ⟨hmem, hgone⟩
      obtain ⟨o'', ho'', hid''⟩ := List.mem_map.mp hmem
      obtain ⟨rfl, -⟩ := hone ho'' ho' (hid''.trans hid.symm)
      rw [Book.taken, side_withSide] at ho
      exact hgone (List.mem_map_of_mem ho)

/-- **`match`** is what the reference book takes. -/
theorem Sound.match_ (h : Sound b) (hnd : b.book.ids.Nodup) (taker : OrderRequest) :
    (b.match_ taker).1 = b.book.trades taker ∧
      ((b.match_ taker).2.1 = { taker with qty := (b.match_ taker).2.1.qty } ∧
        (b.match_ taker).2.1.qty.toNat = (b.book.take taker).left) ∧
      (b.match_ taker).2.2.book = b.book.taken taker ∧ Sound (b.match_ taker).2.2 := by
  obtain ⟨hf, hord⟩ := matchAgainst_fills (h.ordered taker.side.opposite) taker b.index
  rw [← book_side] at hf
  have hbook : (b.match_ taker).2.2.book = b.book.taken taker := by
    rw [OrderBook.match_, book_withLevels, hf.left]
    rfl
  refine ⟨hf.trades, hf.keeps, hbook, ordered_withLevels h.ordered hord _, ?_⟩
  rw [hbook]
  apply h.index_taken
  have hside : ((b.book.side taker.side.opposite).map (·.id)).Nodup := by
    rw [Book.ids, Book.orders, List.map_append, List.nodup_append] at hnd
    cases taker.side.opposite with
    | buy => exact hnd.1
    | sell => exact hnd.2.1
  have he := hf.index hside
  rw [hf.left] at he
  exact he

/-! ### Resting and leaving -/

/-- The index tells where a new order rests. -/
theorem Sound.index_join (h : Sound b) {o : OrderRequest} (hnew : o.id ∉ b.book.ids) (qty : ℕ) (id : OrderId) (side : Side)
    (p : ℤ) :
    update b.index o.id (some (o.side, o.price)) id = some (side, p) ↔
      ∃ x ∈ (b.book.join o qty).side side, x.id = id ∧ x.price = p := by
  by_cases hid : id = o.id
  · subst hid
    rw [update_self]
    constructor
    · intro he
      rw [Option.some.injEq, Prod.mk.injEq] at he
      exact ⟨_, mem_side_join.mpr (Or.inr ⟨he.1.symm, rfl⟩), rfl, he.2⟩
    · rintro ⟨x, hx, hxid, rfl⟩
      rcases mem_side_join.mp hx with hx | ⟨rfl, rfl⟩
      · exact absurd (hxid ▸ List.mem_map_of_mem (mem_side_orders hx)) hnew
      · rfl
  · rw [update_of_ne hid, h.index]
    constructor
    · rintro ⟨x, hx, hxid, hp⟩
      exact ⟨x, mem_side_join.mpr (Or.inl hx), hxid, hp⟩
    · rintro ⟨x, hx, rfl, hp⟩
      rcases mem_side_join.mp hx with hx | ⟨rfl, rfl⟩
      · exact ⟨x, hx, rfl, hp⟩
      · exact absurd rfl hid

/-- **An order comes to rest.** -/
theorem Sound.rest (h : Sound b) {o : OrderRequest} (hnew : o.id ∉ b.book.ids) :
    Sound (b.rest o) ∧ (b.rest o).book = b.book.join o o.qty.toNat := by
  have hm := h.ordered o.side
  have hbook : (b.rest o).book = b.book.join o o.qty.toNat := by
    rw [OrderBook.rest, book_withLevels, hm.sideOf_pushBack (ahead_strictTotal o.side) toOrder_price, Book.join, book_side]
    rfl
  refine ⟨⟨ordered_withLevels h.ordered (hm.pushBack (ahead_strictTotal o.side) o.price o) _, fun id side p => ?_⟩, hbook⟩
  rw [hbook]
  exact h.index_join hnew o.qty.toNat id side p

/-- `do_cancel` makes no level. -/
theorem price_of_mem_doCancel {m : LevelMap ℤ OrderRequest} {id : OrderId} {p : ℤ} {l : ℤ × List OrderRequest}
    (hl : l ∈ (doCancel id p m).2) : ∃ l' ∈ m, l'.1 = l.1 := by
  induction m with
  | nil => cases hl
  | cons l₀ m ih =>
    rw [doCancel] at hl
    split_ifs at hl with hp
    · dsimp only at hl
      split_ifs at hl
      · exact ⟨l, List.mem_cons_of_mem _ hl, rfl⟩
      · rcases List.mem_cons.mp hl with rfl | hl
        · exact ⟨l₀, List.mem_cons_self, rfl⟩
        · exact ⟨l, List.mem_cons_of_mem _ hl, rfl⟩
    · rcases List.mem_cons.mp hl with rfl | hl
      · exact ⟨_, List.mem_cons_self, rfl⟩
      · obtain ⟨l', hl', he⟩ := ih hl
        exact ⟨l', List.mem_cons_of_mem _ hl', he⟩

/-- An id that rests at one price only is not among orders of other prices. -/
theorem remove_elsewhere {os : List (Order ℤ OrderId)} {id : OrderId} {p : ℤ} (honly : ∀ o ∈ os, o.id = id → o.price = p)
    (hprice : ∀ o ∈ os, o.price ≠ p) : remove id os = os := by
  refine remove_of_not_mem fun hmem => ?_
  obtain ⟨o, ho, he⟩ := List.mem_map.mp hmem
  exact hprice o ho (honly o ho he)

/-- `do_cancel` takes the id out of its level. -/
theorem doCancel_spec {side : Side} {m : LevelMap ℤ OrderRequest} (h : Ordered side.ahead m) {id : OrderId} {p : ℤ}
    (hid : ∃ o ∈ sideOf toOrder m, o.id = id ∧ o.price = p)
    (honly : ∀ o ∈ sideOf toOrder m, o.id = id → o.price = p) :
    (doCancel id p m).1 = true ∧ Ordered side.ahead (doCancel id p m).2 ∧
      sideOf toOrder (doCancel id p m).2 = remove id (sideOf toOrder m) := by
  induction m with
  | nil =>
    obtain ⟨o, ho, -⟩ := hid
    cases ho
  | cons l m ih =>
    obtain ⟨q, queue⟩ := l
    obtain ⟨h1, h2, h3⟩ := ordered_cons.mp h
    rw [sideOf_cons] at hid honly
    obtain ⟨hfirst, hbehind⟩ := List.forall_mem_append.mp honly
    have hq : ∀ o ∈ queue.map (toOrder q), o.price = q := by
      intro o ho
      obtain ⟨x, -, rfl⟩ := List.mem_map.mp ho
      rfl
    rw [doCancel, sideOf_cons, remove_append]
    by_cases hp : q = p
    · -- the level of the id; behind it there are only other prices
      subst hp
      have hother : ∀ o ∈ sideOf toOrder m, o.price ≠ q := fun o ho he => by
        have hahead := h.behind toOrder_price o ho
        rw [he, (ahead_strictTotal side).irrefl] at hahead
        cases hahead
      have hfilter : (queue.filter (·.id ≠ id)).map (toOrder q) = remove id (queue.map (toOrder q)) := by
        rw [remove, List.filter_map]
        rfl
      rw [if_pos rfl, remove_elsewhere hbehind hother, ← hfilter]
      refine ⟨rfl, ?_⟩
      dsimp only
      split_ifs with he
      · rw [he]
        exact ⟨h3, rfl⟩
      · exact ⟨ordered_cons.mpr ⟨h1, he, h3⟩, rfl⟩
    · rw [if_neg hp, remove_elsewhere hfirst fun o ho he => hp ((hq o ho).symm.trans he)]
      have hid' : ∃ o ∈ sideOf toOrder m, o.id = id ∧ o.price = p := by
        obtain ⟨o, ho, hoid, hop⟩ := hid
        rcases List.mem_append.mp ho with ho | ho
        · exact absurd ((hq o ho).symm.trans hop) hp
        · exact ⟨o, ho, hoid, hop⟩
      obtain ⟨r1, r2, r3⟩ := ih h3 hid' hbehind
      refine ⟨r1, ordered_cons.mpr ⟨fun l hl => ?_, h2, r2⟩, ?_⟩
      · obtain ⟨l', hl', he⟩ := price_of_mem_doCancel hl
        rw [← he]
        exact h1 l' hl'
      · rw [sideOf_cons, r3]

/-- The index forgets an id that is cancelled. -/
theorem Sound.index_cancel (h : Sound b) (id id' : OrderId) (side : Side) (p : ℤ) :
    update b.index id none id' = some (side, p) ↔ ∃ o ∈ (b.book.cancel id).2.side side, o.id = id' ∧ o.price = p := by
  by_cases hid : id' = id
  · subst hid
    rw [update_self]
    constructor
    · intro he
      cases he
    · rintro ⟨o, ho, he, -⟩
      exact absurd he (mem_side_cancel.mp ho).2
  · rw [update_of_ne hid, h.index]
    constructor
    · rintro ⟨o, ho, he, hp⟩
      exact ⟨o, mem_side_cancel.mpr ⟨ho, by rw [he]; exact hid⟩, he, hp⟩
    · rintro ⟨o, ho, he, hp⟩
      exact ⟨o, (mem_side_cancel.mp ho).1, he, hp⟩

/-- **`cancel`.** -/
theorem Sound.cancel (h : Sound b) (id : OrderId) :
    Sound (b.cancel id).2 ∧ ((b.cancel id).1, (b.cancel id).2.book) = b.book.cancel id := by
  rw [OrderBook.cancel]
  cases hi : b.index id with
  | none => exact ⟨h, (cancel_of_not_mem (h.not_mem hi)).symm⟩
  | some at_ =>
    obtain ⟨side, p⟩ := at_
    have hat := (h.index id side p).mp hi
    obtain ⟨hfound, hord, hside⟩ := doCancel_spec (h.ordered side) (by rw [← book_side]; exact hat)
      fun o ho he => (h.rests_at hi (by rw [book_side]; exact ho) he).2
    dsimp only
    rw [hfound, if_pos rfl]
    rw [← book_side] at hside
    have hmem : id ∈ b.book.ids := by
      obtain ⟨o, ho, rfl, -⟩ := hat
      exact List.mem_map_of_mem (mem_side_orders ho)
    have hbook : OrderBook.book { b.withLevels side (doCancel id p (b.levels side)).2 with
        index := update b.index id none } = (b.book.cancel id).2 := by
      rw [book_withLevels, hside]
      have hother : remove id (b.book.side side.opposite) = b.book.side side.opposite := by
        refine remove_of_not_mem fun hm => ?_
        obtain ⟨o, ho, he⟩ := List.mem_map.mp hm
        have hsame := (h.rests_at hi ho he).1
        cases side <;> cases hsame
      rw [Book.cancel]
      cases side with
      | buy => exact Book.ext rfl hother.symm
      | sell => exact Book.ext hother.symm rfl
    refine ⟨⟨ordered_withLevels h.ordered hord _, fun id' side' p' => ?_⟩, ?_⟩
    · rw [hbook]
      exact h.index_cancel id id' side' p'
    · rw [hbook, Book.cancel, decide_eq_true hmem]

/-! ### The two checks -/

/-- The loop of `can_fully_fill` breaks at a price that the taker does not accept. -/
theorem outOfReach_eq (htype : taker.type ≠ .market) (p : ℤ) : outOfReach taker p = !taker.accepts p := by
  rw [outOfReach, OrderRequest.accepts, decide_eq_false htype, Bool.false_or]
  cases taker.side with
  | buy =>
    dsimp only
    rw [← decide_not]
    exact decide_eq_decide.mpr not_le.symm
  | sell =>
    dsimp only
    rw [← decide_not]
    exact decide_eq_decide.mpr not_le.symm

/-- The sum over a queue, in 64 bits. -/
theorem foldl_qty (p : ℤ) (queue : List OrderRequest) (available : Quantity) :
    (queue.foldl (fun available ord => available + ord.qty) available).toNat =
      (available.toNat + totalQty (queue.map (toOrder p))) % 2 ^ 64 := by
  induction queue generalizing available with
  | nil =>
    have := available.toNat_lt
    simp only [List.foldl_nil, List.map_nil, totalQty_nil]
    omega
  | cons o queue ih =>
    rw [List.foldl_cons, ih, UInt64.toNat_add, List.map_cons, totalQty_cons, toOrder]
    dsimp only
    omega

/-- **The loop of `can_fully_fill`** sums 64-bit words and compares at the end of each level. -/
theorem fillable_eq {side : Side} {m : LevelMap ℤ OrderRequest} (h : Ordered side.ahead m)
    (htype : taker.type ≠ .market) (available : Quantity) :
    fillable taker m available =
      coversWrapped 64 taker.accepts taker.qty.toNat available.toNat (sideOf toOrder m) := by
  induction m generalizing available with
  | nil => rfl
  | cons l m ih =>
    obtain ⟨p, queue⟩ := l
    obtain ⟨-, hne, hm⟩ := ordered_cons.mp h
    rw [fillable, outOfReach_eq htype, sideOf_cons]
    by_cases hok : taker.accepts p = true
    · have hprice : ∀ o ∈ queue.map (toOrder p), o.price = p := by
        intro o ho
        obtain ⟨x, -, rfl⟩ := List.mem_map.mp ho
        rfl
      have hbehind : ∀ o ∈ (sideOf toOrder m).head?, o.price ≠ p := by
        intro o ho he
        have hahead := h.behind toOrder_price o (List.mem_of_mem_head? ho)
        rw [he, (ahead_strictTotal side).irrefl] at hahead
        cases hahead
      rw [hok, if_neg (by decide), coversWrapped_level (by simpa using hne) hprice hok hbehind]
      dsimp only
      have hsum : taker.qty ≤ queue.foldl (fun available ord => available + ord.qty) available ↔
          taker.qty.toNat ≤ (available.toNat + totalQty (queue.map (toOrder p))) % 2 ^ 64 := by
        rw [UInt64.le_iff_toNat_le, foldl_qty p]
      rw [ih hm, foldl_qty p]
      by_cases hle : taker.qty ≤ queue.foldl (fun available ord => available + ord.qty) available
      · rw [if_pos hle, decide_eq_true (hsum.mp hle), Bool.true_or]
      · rw [if_neg hle, decide_eq_false (hsum.not.mp hle), Bool.false_or]
    · have hfalse : taker.accepts p = false := by simpa using hok
      rw [hfalse, Bool.not_false, if_pos rfl, coversWrapped_stop]
      intro o ho
      obtain ⟨x, xs, hx⟩ := List.exists_cons_of_ne_nil hne
      rw [hx, List.map_cons, List.cons_append, List.head?_cons, Option.mem_some_iff] at ho
      rw [← ho]
      exact hfalse

theorem Sound.canFullyFill (h : Sound b) (htype : taker.type ≠ .market) :
    b.canFullyFill taker = b.book.coversWrapping taker := by
  rw [OrderBook.canFullyFill, fillable_eq (h.ordered _) htype, Book.coversWrapping, book_side]
  rfl

/-- The best price of a side is that of its first level. -/
theorem Sound.best (h : Sound b) (side : Side) : b.book.best side = (b.levels side).head?.map (·.1) := by
  rw [Book.best, book_side, (h.ordered side).head_price toOrder_price]

theorem Sound.wouldCross (h : Sound b) (htype : taker.type ≠ .market) : b.wouldCross taker = b.book.crosses taker := by
  rw [OrderBook.wouldCross, Book.crosses, h.best, Option.any_map]
  cases hside : taker.side with
  | buy =>
    rw [funext (accepts_buy htype hside)]
    rfl
  | sell =>
    rw [funext (accepts_sell htype hside)]
    rfl

/-! ### The interface -/

/-- **`add`** is that of the reference book whose fill-or-kill test sums 64-bit words. -/
theorem Sound.add (h : Sound b) (hnd : b.book.ids.Nodup) {o : OrderRequest}
    (hnew : o.type ≠ .cancel → o.id ∉ b.book.ids) :
    Sound (b.add o).2 ∧ ((b.add o).1, (b.add o).2.book) = b.book.addWith Book.coversWrapping o := by
  obtain ⟨htrades, ⟨htaker, hleft⟩, hbook, hsound⟩ := h.match_ hnd o
  rw [OrderBook.add, Book.addWith]
  cases htype : o.type with
  | cancel =>
    obtain ⟨hs, he⟩ := h.cancel o.id
    exact ⟨hs, by rw [← he]⟩
  | postOnly =>
    dsimp only
    rw [h.wouldCross (by rw [htype]; decide)]
    split_ifs with hx
    · exact ⟨h, rfl⟩
    · obtain ⟨hs, hb⟩ := h.rest (hnew (by rw [htype]; decide))
      exact ⟨hs, by rw [hb]⟩
  | fok =>
    simp only [true_and, reduceCtorEq, false_and, if_false]
    rw [h.canFullyFill (by rw [htype]; decide)]
    by_cases hc : b.book.coversWrapping o = true
    · rw [if_neg (not_not.mpr hc), if_pos hc]
      exact ⟨hsound, by rw [htrades, hbook]⟩
    · rw [if_pos hc, if_neg hc]
      exact ⟨h, rfl⟩
  | market =>
    simp only [reduceCtorEq, false_and, if_false]
    exact ⟨hsound, by rw [htrades, hbook]⟩
  | ioc =>
    simp only [reduceCtorEq, false_and, if_false]
    exact ⟨hsound, by rw [htrades, hbook]⟩
  | limit =>
    simp only [reduceCtorEq, false_and, if_false, true_and]
    have hpos : 0 < (b.match_ o).2.1.qty ↔ 0 < (b.book.take o).left := by rw [← toNat_pos, hleft]
    by_cases hrest : 0 < (b.book.take o).left
    · have hid : (b.match_ o).2.1.id ∉ (b.match_ o).2.2.book.ids := by
        rw [htaker, hbook]
        exact fun hm => hnew (by rw [htype]; decide) (ids_taken_subset _ _ hm)
      obtain ⟨hs, hb⟩ := hsound.rest hid
      rw [if_pos (hpos.mpr hrest), if_pos hrest]
      refine ⟨hs, ?_⟩
      dsimp only
      rw [hb, htrades, hbook, hleft, htaker]
      rfl
    · rw [if_neg (fun hq => hrest (hpos.mp hq)), if_neg hrest]
      exact ⟨hsound, by rw [htrades, hbook]⟩

/-- The number of orders of a side. -/
theorem length_sideOf (m : LevelMap ℤ OrderRequest) : (sideOf toOrder m).length = (m.map (·.2.length)).sum := by
  simp [sideOf, List.length_flatMap]

/-- **The observers.** -/
theorem Sound.view (h : Sound b) : b.view = View.ofV2 b.book.view := by
  have hdepth : b.depth = b.book.orders.length := by
    rw [OrderBook.depth, Book.orders, List.length_append, ← length_sideOf, ← length_sideOf]
    rfl
  rw [OrderBook.view, View.ofV2, Book.view, h.best, h.best, hdepth]
  rfl

/-- A number of 53 significant bits is a multiple of the step it is rounded to. -/
theorem ulp_dvd {n m e : ℕ} (hm : m ≤ 2 ^ 53) (hn : n = m * 2 ^ e) : 2 ^ (n.log2 - 52) ∣ n := by
  rcases Nat.eq_zero_or_pos (n.log2 - 52) with hk | hk
  · rw [hk]
    exact one_dvd n
  · have hpos : n ≠ 0 := by
      rintro rfl
      simp at hk
    have hlow : 2 ^ n.log2 ≤ n := Nat.log2_self_le hpos
    have hhigh : n ≤ 2 ^ (53 + e) := by
      rw [hn, pow_add]
      exact Nat.mul_le_mul_right _ hm
    have hle : n.log2 ≤ 53 + e := (Nat.pow_le_pow_iff_right (by decide)).mp (hlow.trans hhigh)
    rcases Nat.lt_or_ge e (n.log2 - 52) with hlt | hge
    · -- the one case in which the step is above `2 ^ e`: then `n` is a power of two
      have hlog : n.log2 = 53 + e := by omega
      have hpow : n = 2 ^ (53 + e) := le_antisymm hhigh (by rw [hlog] at hlow; exact hlow)
      rw [hlog, hpow]
      exact pow_dvd_pow 2 (by omega)
    · nth_rewrite 2 [hn]
      exact (pow_dvd_pow 2 hge).mul_left m

/-- An integer of 53 significant bits is a double. -/
theorem toDouble_of_isDouble {z : ℤ} (h : IsDouble z) : toDouble z = z := by
  obtain ⟨m, e, hm, hn⟩ := h
  have hround : roundTo53 z.natAbs = z.natAbs := by
    have hdvd := ulp_dvd hm hn
    have hpos : 0 < 2 ^ (z.natAbs.log2 - 52) := Nat.two_pow_pos _
    have hmod := Nat.mod_eq_zero_of_dvd hdvd
    rw [roundTo53, hmod, if_neg (by omega), Nat.div_mul_cancel hdvd]
  rw [toDouble, hround, Int.sign_mul_natAbs]

/-- **A call on the first book.** -/
theorem Sound.call (h : Sound b) (hnd : b.book.ids.Nodup) {op : Op} (hop : op.toCall.Allowed b.book.ids)
    (hp : ∀ req, op = .add req → IsDouble req.price) :
    Sound (b.call op).2 ∧ ((b.call op).1, (b.call op).2.book) = b.book.callWith Book.coversWrapping op.toCall := by
  cases op with
  | cancel id =>
    obtain ⟨hs, he⟩ := h.cancel id
    refine ⟨hs, ?_⟩
    rw [Op.toCall, Book.callWith, ← he]
    rfl
  | add req =>
    obtain ⟨hs, he⟩ := h.add hnd hop.2
    have hreq : ({ req with price := toDouble req.price } : OrderRequest) = req := by
      rw [toDouble_of_isDouble (hp req rfl)]
    rw [OrderBook.call, hreq]
    refine ⟨hs, ?_⟩
    rw [Op.toCall, Book.callWith, ← he]

/-! ### Both books -/

/-- The price of the call is a double. -/
def Op.PriceIsDouble : Op → Prop
  | .add req => IsDouble req.price
  | .cancel _ => True

/-- What the first book shows of an answer and the observers of the second one. -/
def common (shown : Answer × MatchingEngine.View) : Answer × View := (shown.1, View.ofV2 shown.2)

/-- From two books that stand for the same orders, the same is shown. -/
theorem Sound.shows {s : OrderBookV2} {c : Layout} {P : OrderBookV2 → Prop} {ops : List Op} (h : Sound b)
    (hs : Settled s c) (ht : Tracked s c) (hb : b.book = s.bookOf c) (hp : ∀ op ∈ ops, op.PriceIsDouble)
    (hrun : s.Returning P (ops.map Op.toCall)) :
    b.shows ops = ((s.bookOf c).showsWith Book.coversWrapping (ops.map Op.toCall)).map common := by
  induction ops generalizing b s c with
  | nil => rfl
  | cons op ops ih =>
    have hallowed : op.toCall.Allowed b.book.ids := by
      rw [hb, ← hs.book_eq]
      exact hrun.2.1
    obtain ⟨-, r, c', -, hr, hn, hrest⟩ := hs.returning_cons ht hrun
    have hnd : b.book.ids.Nodup := hb ▸ ht.ids_nodup hs
    have hprice : ∀ req, op = .add req → IsDouble req.price := by
      rintro req rfl
      exact hp _ List.mem_cons_self
    obtain ⟨hsound, hcall⟩ := h.call hnd hallowed hprice
    have hret := hr.returned hn
    rw [hb, ← hret] at hcall
    obtain ⟨hans, hbook⟩ := Prod.mk.inj hcall
    have hnext := ih hsound hr.settled hr.tracked hbook (fun op hop => hp op (List.mem_cons_of_mem _ hop)) hrest
    rw [OrderBook.shows, List.map_cons, Book.showsWith, List.map_cons, ← hret, hnext, hsound.view, hbook, hans]
    rfl

end MatchingEngine.V1

namespace MatchingEngine

open V1

/-- **The two books agree**: in every run of adds and cancels in which the second one neither throws nor
overflows, the first one returns the same trades and the same answers, and shows the same best prices
and depth after each call. Sums of quantities may wrap. -/
theorem v1_agrees {capacity : UInt32} {window : ℤ} {ops : List Op} (hp : ∀ op ∈ ops, op.PriceIsDouble)
    (hrun : (OrderBookV2.new capacity window).Returning (fun _ => True) (ops.map Op.toCall)) :
    ((OrderBookV2.new capacity window).shows (ops.map Op.toCall)).map (List.map common) =
      .ok (V1.OrderBook.new.shows ops) := by
  have hs := settled_new capacity window
  have ht := tracked_new capacity window
  obtain ⟨hsound, hempty⟩ := sound_new
  rw [hs.shows ht hrun, hsound.shows hs ht hempty hp hrun]
  rfl

/-- A fill-or-kill order that is refused although enough rests, since the sum of the two sell orders wraps. -/
theorem v1_agrees_wrapping :
    let ops : List Op := [.add ⟨1, .sell, .limit, 100, 18446744073709551615⟩, .add ⟨2, .sell, .limit, 100, 2⟩,
      .add ⟨3, .buy, .fok, 100, 5⟩, .cancel 1]
    ((OrderBookV2.new 4 8).shows (ops.map Op.toCall)).map (List.map common) = .ok (V1.OrderBook.new.shows ops) := by
  intro ops
  refine v1_agrees (fun op hop => ?_) (by decide)
  have hprice : IsDouble 100 := ⟨100, 0, by decide, rfl⟩
  simp only [ops, List.mem_cons, List.not_mem_nil, or_false] at hop
  rcases hop with rfl | rfl | rfl | rfl
  · exact hprice
  · exact hprice
  · exact hprice
  · trivial

end MatchingEngine
