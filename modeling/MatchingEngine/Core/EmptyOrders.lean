import MatchingEngine.Core.Placing

/-!
# Orders without shares

A Limit order rests only what is left of it, and only if something is. A PostOnly order rests
as it comes, and nothing asks whether it comes with any quantity at all: one of quantity 0
rests, and is traded against later in trades of quantity 0.

`NoEmptyPostOnly` says of a call that it is not such an order. `ReachedBy.positive`: in a run of
calls of which none is, every order that rests has shares, whatever ids the calls use, and
whether or not they throw.
-/

namespace MatchingEngine

open Foundation OrderBookV2

/-! ### The condition -/

/-- The call is not a PostOnly order of quantity 0 that does not cross and finds a place. -/
def NoEmptyPostOnly (s : OrderBookV2) : Call → Prop
  | .add req => req.type = .postOnly → req.qty = 0 → s.book.crosses req = false → ¬ s.HasPlace s.book req.price
  | .cancel _ | .reduce _ _ => True

/-! ### The marked book -/

namespace MarkedBook

variable {b : MarkedBook} {req : OrderRequest}

/-- Every order has shares. -/
def Filled (b : MarkedBook) : Prop := ∀ side, Positive (b side)

theorem Filled.forget (h : b.Filled) (ids : List OrderId) : (b.forget ids).Filled := fun side =>
  positive_rename.mpr (h side)

theorem Filled.cancel (h : b.Filled) (id : OrderId) : (b.cancel id).2.Filled := fun side => (h side).remove _

theorem Filled.reduce (h : b.Filled) (id : OrderId) (delta : Quantity) : (b.reduce id delta).2.Filled := fun side =>
  (h side).reduceBy _ _

theorem Filled.taken (h : b.Filled) (req : OrderRequest) : (b.taken req).Filled := by
  apply Filled.forget
  intro side
  dsimp only
  split_ifs
  · exact h side
  · exact (h _).fill_rest _ _

theorem Filled.join (h : b.Filled) {qty : ℕ} (hq : 0 < qty) : (b.join req qty).Filled := by
  intro side
  rw [MarkedBook.join]
  split_ifs
  · exact (h.forget [req.id] side).enqueue _ hq
  · exact h.forget [req.id] side

theorem Filled.rest (h : b.Filled) {capacity qty : ℕ} {window : ℤ} {refused : Option Exn}
    (hq : (b.rest capacity window refused req qty).1 = none → 0 < qty) :
    (b.rest capacity window refused req qty).2.Filled := by
  by_cases hw : WindowFits window
  · cases refused with
    | some e =>
      rw [rest_refused hw]
      exact h
    | none =>
      rw [rest_accepted hw] at hq ⊢
      split_ifs at hq ⊢
      · exact h.join (hq rfl)
      · exact h
  · rw [rest_unopened hw]
    exact h

/-- `add` keeps the orders from being empty, if a PostOnly order that comes to rest has shares. -/
theorem Filled.add (h : b.Filled) {capacity : ℕ} {window : ℤ} {refused : Option Exn}
    (hop : req.type = .postOnly → b.book.crosses req = false →
      (b.rest capacity window refused req req.qty.toNat).1 = none → 0 < req.qty.toNat) :
    (b.add capacity window refused req).2.2.Filled := by
  rw [MarkedBook.add]
  cases htype : req.type with
  | cancel => exact h.cancel req.id
  | market => exact h.taken req
  | ioc => exact h.taken req
  | fok =>
    dsimp only
    split_ifs
    · exact h.taken req
    · exact h
  | limit =>
    dsimp only
    split_ifs with hleft
    · exact (h.taken req).rest fun _ => hleft
    · exact h.taken req
  | postOnly =>
    dsimp only
    split_ifs with hx
    · exact h
    · -- the one place where the quantity is not looked at
      exact h.rest (hop htype (by simpa using hx))

theorem Filled.side (h : b.Filled) (side : Side) : Positive (b.book.side side) := by
  rw [side_book]
  exact positive_rename.mpr (h side)

end MarkedBook

/-- **No trade is empty** against orders that have shares. -/
theorem Book.trades_positive {b : Book} {req : OrderRequest} (h : Positive (b.side req.side.opposite)) :
    ∀ t ∈ b.trades req, 0 < t.qty := by
  intro t ht
  obtain ⟨f, hf, rfl⟩ := List.mem_map.mp ht
  obtain ⟨hpos, hle⟩ := h.fill_fills req.accepts req.qty.toNat f hf
  apply toNat_pos.mp
  show 0 < (UInt64.ofNat f.qty).toNat
  rw [UInt64.toNat_ofNat_of_lt' (hle.trans_lt req.qty.toNat_lt)]
  exact hpos

variable {s : OrderBookV2} {b : MarkedBook} {capacity : UInt32} {window : ℤ}

/-- The trades of a call are not empty. -/
theorem MarkedBook.Filled.trades (h : b.Filled) {cap : ℕ} {refused : Option Exn} {op : Call} {ts : List Trade}
    (hts : (b.call cap window refused op).1 = .trades ts) : ∀ t ∈ ts, 0 < t.qty := by
  cases op with
  | cancel id => cases hts
  | reduce id delta => cases hts
  | add req =>
    have hall : ∀ t ∈ b.book.trades req, 0 < t.qty := Book.trades_positive (h.side _)
    rw [MarkedBook.call, Answer.trades.injEq, MarkedBook.add] at hts
    subst hts
    cases req.type with
    | cancel => simp
    | market => exact hall
    | ioc => exact hall
    | fok =>
      dsimp only
      split_ifs
      · exact hall
      · simp
    | limit =>
      dsimp only
      split_ifs
      · exact hall
      · exact hall
    | postOnly =>
      dsimp only
      split_ifs <;> simp

/-- **One call** keeps the orders from being empty. -/
theorem Bears.filled_call {cap : ℕ} (h : Bears s b cap window) (hfilled : b.Filled) {op : Call} (hop : op.InRange)
    (hmeets : NoEmptyPostOnly s op) {r : CallResult} (hr : s.call op = .ok r) :
    (b.call cap window (refusal r.thrown) op).2.2.Filled := by
  have hthrown := (Prod.mk.inj (h.call hop hr).1).2
  cases op with
  | cancel id => exact hfilled.cancel id
  | reduce id delta => exact hfilled.reduce id delta
  | add req =>
    refine hfilled.add fun htype hcross hrest => ?_
    obtain ⟨a, hadd, hr⟩ := bind_eq_ok.mp hr
    cases hr
    -- the order comes to rest, and so has a place
    have hnone : a.thrown = none := by
      rw [show a.thrown = _ from hthrown, ← hrest, MarkedBook.call, MarkedBook.add, htype]
      dsimp only
      rw [hcross, if_neg (by decide)]
    rw [← h.book] at hcross
    have hplace := (h.settled.postOnly_returns_iff htype hop hcross hadd).mp hnone
    by_contra hz
    have hq : req.qty = 0 := toNat_eq_zero.mp (Nat.eq_zero_of_not_pos hz)
    exact hmeets htype hq hcross hplace

/-! ### Runs -/

/-- **In a run without empty PostOnly orders** every order that rests has shares. -/
theorem ReachedBy.filled (h : ReachedBy NoEmptyPostOnly capacity window s) :
    ∃ b, Bears s b capacity.toNat window ∧ b.Filled := by
  induction h with
  | new => exact ⟨_, bears_new capacity window, fun _ => positive_nil⟩
  | call hs hop hmeets hr ih =>
    obtain ⟨b, hb, hfilled⟩ := ih
    exact ⟨_, (hb.call hop hr).2, hb.filled_call hfilled hop hmeets hr⟩

/-- A side that the book announces has an order. -/
theorem exists_of_best {b : Book} {side : Side} (h : (b.best side).isSome) : ∃ o, o ∈ b.side side := by
  obtain ⟨p, hp⟩ := Option.isSome_iff_exists.mp h
  obtain ⟨o, ho, -⟩ := Option.map_eq_some_iff.mp hp
  exact ⟨o, List.mem_of_mem_head? ho⟩

/-- **What a run without empty PostOnly orders shows**: orders with shares, trades of shares, and
a best price only where there are shares behind it. -/
theorem ReachedBy.positive (h : ReachedBy NoEmptyPostOnly capacity window s) :
    (∀ o ∈ s.book.orders, 0 < o.qty) ∧
    (∀ op r ts, op.InRange → s.call op = .ok r → r.answer = .trades ts → ∀ t ∈ ts, 0 < t.qty) ∧
    (s.hasBid = true → ∃ o ∈ s.book.bids, 0 < o.qty) ∧ (s.hasAsk = true → ∃ o ∈ s.book.asks, 0 < o.qty) := by
  obtain ⟨b, hb, hfilled⟩ := h.filled
  have hside : ∀ side, Positive (s.book.side side) := fun side => hb.book ▸ hfilled.side side
  refine ⟨fun o ho => ?_, fun op r ts hop hr hts => ?_, fun hbid => ?_, fun hask => ?_⟩
  · rcases List.mem_append.mp ho with ho | ho
    · exact hside .buy o ho
    · exact hside .sell o ho
  · have hanswer := (Prod.mk.inj (hb.call hop hr).1).1
    exact hfilled.trades (hanswer.symm.trans hts)
  · rw [hb.settled.hasBid_eq] at hbid
    obtain ⟨o, ho⟩ := exists_of_best hbid
    exact ⟨o, ho, hside .buy o ho⟩
  · rw [hb.settled.hasAsk_eq] at hask
    obtain ⟨o, ho⟩ := exists_of_best hask
    exact ⟨o, ho, hside .sell o ho⟩

end MatchingEngine
