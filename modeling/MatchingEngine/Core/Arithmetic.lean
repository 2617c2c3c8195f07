import MatchingEngine.Core.EmptyOrders
import MatchingEngine.Core.FillSums

/-!
# The arithmetic of the book

Prices are `int64_t` and quantities `uint64_t`, and a caller may pass any of them. The guard against
prices that are too far away is computed with the price itself, so a price near either end of
`int64_t` overflows before it is refused; and nothing guards the sums of quantities.

`Fits` says, of a call and the state before it, that nothing of this happens: that the sums and
differences of `ensure_index_for_price` are `int64_t` (`AxisFits`), that the total of the level an order
joins is a `uint64_t` (`RestFits`), and what `FillSums.lean` asks of a fill-or-kill order.
`arithmetic_fits`: in a run of such calls no computation leaves its type, every level total is the
quantity of its orders, and a price is refused by one of the two exceptions of the price axis if and only
if the level array cannot be made to reach it.
-/

namespace MatchingEngine

open Foundation OrderBookV2

variable {s s' : OrderBookV2} {c : Layout} {req : OrderRequest} {p : ℤ}

/-! ### The price axis -/

/-- The computations of `ensure_index_for_price` stay within `int64_t`. On an open axis these are the index
of the price; and below the axis the number of levels to add, and the new base if they are added. Before it is
open, the vector must be able to hold a window of levels. -/
def OrderBookV2.AxisFits (s : OrderBookV2) (p : ℤ) : Prop :=
  if s.haveBase = true then
    p - s.base < 2 ^ 63 ∧
      (p < s.base → s.base - p + s.initialWindow.tdiv 4 + 1 < 2 ^ 63 ∧
        (s.Reaches p → -2 ^ 63 ≤ p - s.initialWindow.tdiv 4 - 1))
  else WindowFits s.initialWindow ∧ InI64 (p - s.initialWindow.tdiv 2)

instance (s : OrderBookV2) (p : ℤ) : Decidable (s.AxisFits p) := inferInstanceAs (Decidable (ite _ _ _))

theorem i64_ok {x : ℤ} (h : InI64 x) : i64 x = .ok x := if_pos h

theorem Frame.axisFits (hf : Frame s s') : s'.AxisFits p ↔ s.AxisFits p := by
  rw [OrderBookV2.AxisFits, OrderBookV2.AxisFits, hf.haveBase, hf.base, hf.window, hf.reaches]

/-- Growing at the front. -/
theorem growFront_fits (hw : 0 ≤ s.initialWindow) (hp : InI64 p) (hneg : p - s.base < 0)
    (hshift : s.base - p + s.initialWindow.tdiv 4 + 1 < 2 ^ 63)
    (hbase : s.Reaches p → -2 ^ 63 ≤ p - s.initialWindow.tdiv 4 - 1) :
    ∃ x, s.growFront p (p - s.base) = .ok x := by
  have hquarter : 0 ≤ s.initialWindow.tdiv 4 := Int.tdiv_nonneg hw (by decide)
  have h1 : InI64 (-(p - s.base)) := by rw [InI64]; omega
  have h2 : InI64 (-(p - s.base) + s.initialWindow.tdiv 4) := by rw [InI64]; omega
  have h3 : InI64 (-(p - s.base) + s.initialWindow.tdiv 4 + 1) := by rw [InI64]; omega
  rw [growFront, i64_ok h1, ok_bind, i64_ok h2, ok_bind, i64_ok h3, ok_bind]
  by_cases hmax : kMaxLevels < s.levels.length + (-(p - s.base) + s.initialWindow.tdiv 4 + 1).toNat
  · rw [if_pos hmax]
    exact ⟨_, rfl⟩
  · have hreach : s.Reaches p := by
      rw [Reaches, if_pos (by omega)]
      omega
    have hlow := hbase hreach
    have hhigh := hp.2
    have h4 : InI64 (s.base - (-(p - s.base) + s.initialWindow.tdiv 4 + 1)) := by rw [InI64]; omega
    have h5 : InI64 (p - (s.base - (-(p - s.base) + s.initialWindow.tdiv 4 + 1))) := by rw [InI64]; omega
    rw [if_neg hmax, i64_ok h4, ok_bind, i64_ok h5, ok_bind]
    exact ⟨_, rfl⟩

/-- **`ensure_index_for_price` does not overflow** where its arithmetic fits. -/
theorem ensureIndexForPrice_fits (hw : InI64 s.initialWindow) (ho : s.haveBase = true → WindowFits s.initialWindow)
    (hp : InI64 p) (hfits : s.AxisFits p) : ∃ x, s.ensureIndexForPrice p = .ok x := by
  rw [OrderBookV2.ensureIndexForPrice, OrderBookV2.openWindow]
  rw [OrderBookV2.AxisFits] at hfits
  by_cases hopen : s.haveBase = true
  · rw [if_pos hopen] at hfits ⊢
    obtain ⟨hindex, hfront⟩ := hfits
    have hw' := (ho hopen).1
    have hquarter : 0 ≤ s.initialWindow.tdiv 4 := Int.tdiv_nonneg hw' (by decide)
    have hidx : InI64 (p - s.base) := by
      rw [InI64]
      omega
    rw [ok_bind]
    dsimp only
    rw [i64_ok hidx, ok_bind]
    split_ifs with hneg
    · obtain ⟨hshift, hbase⟩ := hfront (by omega)
      exact growFront_fits hw' hp hneg hshift hbase
    · exact ⟨_, rfl⟩
    · exact ⟨_, rfl⟩
  · rw [if_neg hopen] at hfits ⊢
    obtain ⟨hw', hbase⟩ := hfits
    have hhalf := half_window hw
    have hpos : 0 ≤ s.initialWindow.tdiv 2 := Int.tdiv_nonneg hw'.1 (by decide)
    have hidx : InI64 (p - (p - s.initialWindow.tdiv 2)) := by
      rw [InI64]
      omega
    rw [i64_ok hbase, ok_bind, if_pos hw', ok_bind]
    dsimp only
    rw [i64_ok hidx, ok_bind, if_neg (by omega)]
    split_ifs
    · exact ⟨_, rfl⟩
    · exact ⟨_, rfl⟩

/-- The base is an `int64_t`. -/
theorem ensureIndexForPrice_base {idx : Except Exn ℤ} (hr : s.ensureIndexForPrice p = .ok (idx, s'))
    (hb : s.haveBase = true → InI64 s.base) : s'.haveBase = true → InI64 s'.base := by
  rcases placing_of_ensureIndexForPrice hr with ⟨ho, -, -, rfl⟩ | ⟨s₁, hopen, hplace⟩
  · exact fun hf => absurd (ho.symm.trans hf) (by decide)
  · have hfirst : s₁.haveBase = true → InI64 s₁.base := by
      cases hopen with
      | opened => exact hb
      | fresh _ _ hbase => exact fun _ => hbase
    cases hplace with
    | front _ _ hbase => exact fun _ => hbase
    | found | belowMax | aboveMax | back => exact hfirst

/-! ### Coming to rest -/

/-- **An order comes to rest, or is refused, without overflow.** -/
theorem Settled.rest_fits (h : Settled s c) (hw : InI64 s.initialWindow) (hp : InI64 req.price)
    (hfits : s.AxisFits req.price) : ∃ x, s.rest req = .ok x := by
  obtain ⟨⟨idx, s₁⟩, hidx⟩ := ensureIndexForPrice_fits hw h.opened hp hfits
  obtain ⟨c₁, hre, hok, -⟩ := (h.ensureIndexForPrice req.price).elim hidx
  rw [OrderBookV2.rest, hidx, ok_bind]
  cases idx with
  | error e => exact ⟨_, rfl⟩
  | ok idx =>
    obtain ⟨thrown, s₂, hpush, -⟩ := hre.settled.pushBackOrder_cases (hok idx rfl) req.side req
    dsimp only
    rw [hpush, ok_bind]
    cases thrown with
    | none => exact ⟨_, rfl⟩
    | some e => exact ⟨_, rfl⟩

theorem Settled.rest_base (h : Settled s c) {thrown : Option Exn} (hr : s.rest req = .ok (thrown, s'))
    (hb : s.haveBase = true → InI64 s.base) : s'.haveBase = true → InI64 s'.base := by
  obtain ⟨idx, s₁, hidx, hcase⟩ := h.rest_cases hr
  have hfirst := ensureIndexForPrice_base hidx hb
  rcases hcase with ⟨e, -, -, rfl⟩ | ⟨k, -, -, hbase, hhave⟩
  · exact hfirst
  · rwa [hbase, hhave]

/-! ### Orders that rest, and those that do not -/

/-- What an incoming order keeps when it has taken all that its limit allows. -/
def Book.unfilled (b : Book) (req : OrderRequest) : ℕ :=
  req.qty.toNat - totalQty ((b.side req.side.opposite).filter fun o => req.accepts o.price)

/-- The order looks for a level to rest at: a limit order that keeps something, or a post-only order that
does not cross. -/
def Book.Rests (b : Book) (req : OrderRequest) : Prop :=
  req.type = .limit ∧ 0 < b.unfilled req ∨ req.type = .postOnly ∧ b.crosses req = false

instance (b : Book) (req : OrderRequest) : Decidable (b.Rests req) := inferInstanceAs (Decidable (_ ∧ _ ∨ _ ∧ _))

/-- What matching leaves of an order is what the other side does not cover. -/
theorem Book.Sorted.left_eq {b : Book} (hb : b.Sorted) (req : OrderRequest) : (b.take req).left = b.unfilled req := by
  rw [Book.take, fill_left_eq, hb.takeWhile_accepts, Book.unfilled]

/-- An order that does not cross keeps everything. -/
theorem Book.Sorted.unfilled_of_not_crosses {b : Book} (hb : b.Sorted) (h : b.crosses req = false) :
    b.unfilled req = req.qty.toNat := by
  rw [← hb.left_eq, Book.take, fill_stop]
  intro o ho
  rw [Book.crosses, Book.best, Option.mem_def.mp ho] at h
  exact h

/-- **An `add` of an order that rests** is a matching, if any, and then an attempt to rest what is left. -/
theorem Settled.add_rests (h : Settled s c) (hrests : (s.bookOf c).Rests req) :
    ∃ s₁ c₁ taker ts, Frame s s₁ ∧ Settled s₁ c₁ ∧ taker.price = req.price ∧
      s.add req = (s₁.rest taker >>= fun x => .ok ⟨x.2, ts, x.1⟩) := by
  rcases hrests with ⟨htype, hleft⟩ | ⟨htype, hcross⟩
  · obtain ⟨s₁, taker, ts, c₁, hrun, hm⟩ := h.match_ req []
    obtain ⟨htaker, hqty⟩ := hm.taker
    rw [(bookOf_sorted s c).left_eq] at hqty
    refine ⟨s₁, c₁, taker, ts, hm.frame, hm.settled, by rw [htaker], ?_⟩
    rw [OrderBookV2.add, htype]
    simp only [reduceCtorEq, if_false, ok_bind, Bool.false_eq_true, true_and]
    rw [hrun, ok_bind]
    dsimp only
    rw [if_pos (toNat_pos.mp (hqty.symm ▸ hleft)), List.nil_append]
  · refine ⟨s, c, req, [], Frame.refl s, h, rfl, ?_⟩
    rw [OrderBookV2.add, htype]
    dsimp only
    rw [h.wouldCross (by rw [htype]; decide), ok_bind, hcross, if_neg (by decide)]

/-- **An `add` of an order that does not rest** throws nothing and leaves the axis alone. It fails only if the
fill-or-kill test does. -/
theorem Settled.add_takes (h : Settled s c) (hno : ¬ (s.bookOf c).Rests req) :
    Ends (fun _ => req.type = .fok ∧ ∃ u, s.canFullyFill req = .error u) (s.add req) fun r =>
      r.thrown = none ∧ Frame s r.book := by
  have hmatch : Ends (fun _ => False) (s.match_ req [] >>= fun x => .ok (⟨x.1, x.2.2, none⟩ : AddResult)) fun r =>
      r.thrown = none ∧ Frame s r.book := by
    obtain ⟨s₁, taker, ts, c₁, hrun, hm⟩ := h.match_ req []
    rw [hrun, ok_bind]
    exact ⟨rfl, hm.frame⟩
  rw [OrderBookV2.add]
  cases htype : req.type with
  | cancel =>
    obtain ⟨found, s₁, c₁, hrun, hl, -⟩ := h.cancel req.id
    dsimp only
    rw [hrun]
    exact ⟨rfl, hl.frame⟩
  | market =>
    simp only [reduceCtorEq, if_false, ok_bind, Bool.false_eq_true, false_and]
    exact hmatch.weaken fun u hu => hu.elim
  | ioc =>
    simp only [reduceCtorEq, if_false, ok_bind, Bool.false_eq_true, false_and]
    exact hmatch.weaken fun u hu => hu.elim
  | postOnly =>
    have hcross : (s.bookOf c).crosses req = true := by
      cases hx : (s.bookOf c).crosses req with
      | true => rfl
      | false => exact absurd (Or.inr ⟨htype, hx⟩) hno
    dsimp only
    rw [h.wouldCross (by rw [htype]; decide), ok_bind, hcross, if_pos rfl]
    exact ⟨rfl, Frame.refl s⟩
  | limit =>
    obtain ⟨s₁, taker, ts, c₁, hrun, hm⟩ := h.match_ req []
    have hqty := hm.taker.2
    rw [(bookOf_sorted s c).left_eq] at hqty
    simp only [reduceCtorEq, if_false, ok_bind, Bool.false_eq_true, true_and]
    rw [hrun, ok_bind]
    dsimp only
    rw [if_neg fun hpos => hno (Or.inl ⟨htype, hqty ▸ toNat_pos.mpr hpos⟩)]
    exact ⟨rfl, hm.frame⟩
  | fok =>
    simp only [if_true, reduceCtorEq, if_false, false_and, bind_assoc, ok_bind]
    cases hfill : s.canFullyFill req with
    | error u => exact ⟨trivial, u, rfl⟩
    | ok covered =>
      rw [ok_bind]
      cases covered with
      | false => exact ⟨rfl, Frame.refl s⟩
      | true => exact hmatch.weaken fun u hu => hu.elim

/-! ### Quantities of a price -/

namespace MarkedBook

variable {b : MarkedBook}

/-- At every price there is less than a `uint64_t` holds. -/
def Narrow (b : MarkedBook) : Prop := ∀ side p, qtyAt p (b side) < 2 ^ 64

theorem size_eq (b : MarkedBook) : b.size = b.book.orders.length := by
  simp [size, book, Book.orders]

theorem Narrow.forget (h : b.Narrow) (ids : List OrderId) : (b.forget ids).Narrow := by
  intro side p
  rw [MarkedBook.forget, qtyAt_rename]
  exact h side p

theorem Narrow.cancel (h : b.Narrow) (id : OrderId) : (b.cancel id).2.Narrow := fun side p =>
  (qtyAt_remove_le _ p _).trans_lt (h side p)

theorem Narrow.reduce (h : b.Narrow) (id : OrderId) (delta : Quantity) : (b.reduce id delta).2.Narrow := fun side p =>
  (qtyAt_reduceBy_le _ _ p _).trans_lt (h side p)

theorem Narrow.taken (h : b.Narrow) (req : OrderRequest) : (b.taken req).Narrow := by
  apply Narrow.forget
  intro side p
  dsimp only
  split_ifs
  · exact h side p
  · exact (qtyAt_fill_rest_le _ _ p _).trans_lt (h _ p)

/-- An order joins the quantity at its price. -/
theorem Narrow.join (h : b.Narrow) {qty : ℕ} (hq : qtyAt req.price (b req.side) + qty < 2 ^ 64) :
    (b.join req qty).Narrow := by
  intro side p
  rw [MarkedBook.join]
  split_ifs with hside
  · rw [qtyAt_enqueue, MarkedBook.forget, qtyAt_rename]
    dsimp only
    split_ifs with hp
    · rw [← hp, hside]
      omega
    · rw [Nat.zero_add]
      exact h side p
  · exact h.forget [req.id] side p

theorem Narrow.rest (h : b.Narrow) {capacity : ℕ} {qty : ℕ}
    (hq : b.size < capacity → qtyAt req.price (b req.side) + qty < 2 ^ 64) (window : ℤ) (refused : Option Exn) :
    (b.rest capacity window refused req qty).2.Narrow := by
  by_cases hw : WindowFits window
  · cases refused with
    | some e =>
      rw [rest_refused hw]
      exact h
    | none =>
      rw [rest_accepted hw]
      split_ifs with hsize
      · exact h.join (hq hsize)
      · exact h
  · rw [rest_unopened hw]
    exact h

end MarkedBook

/-! ### The condition -/

/-- An order that looks for a level to rest at: its price fits on the axis, and if it finds a cell, the total of
its level is a `uint64_t`. -/
def OrderBookV2.RestFits (s : OrderBookV2) (req : OrderRequest) : Prop :=
  s.AxisFits req.price ∧
    (s.book.crosses req = true ∨ s.book.orders.length < s.arenaCapacity →
      qtyAt req.price (s.book.side req.side) + s.book.unfilled req < 2 ^ 64)

instance (s : OrderBookV2) (req : OrderRequest) : Decidable (s.RestFits req) :=
  inferInstanceAs (Decidable (_ ∧ (_ ∨ _ → _)))

/-- **The computations of a call stay within their types.** -/
def Fits (s : OrderBookV2) : Call → Prop
  | .add req =>
    (s.book.Rests req → s.RestFits req) ∧ (req.type = .fok → s.book.SumsFit req ∧ s.ScanFits req)
  | .cancel _ | .reduce _ _ => True

instance (s : OrderBookV2) : (op : Call) → Decidable (Fits s op)
  | .add req => inferInstanceAs (Decidable
      ((s.book.Rests req → s.RestFits req) ∧ (req.type = .fok → s.book.SumsFit req ∧ s.ScanFits req)))
  | .cancel _ | .reduce _ _ => inferInstanceAs (Decidable True)

/-! ### One call -/

variable {b : MarkedBook} {capacity : ℕ} {window : ℤ}

/-- What a resting order adds to is what its side has at its price. -/
theorem Bears.qtyAt_side (h : Bears s b capacity window) (side : Side) : qtyAt p (s.book.side side) = qtyAt p (b side) := by
  rw [h.book, MarkedBook.side_book, qtyAt_rename]

/-- **A call that fits** keeps the quantity at every price below that of a `uint64_t`. -/
theorem Bears.narrow_call (h : Bears s b capacity window) (hn : b.Narrow) {op : Call} (hfits : Fits s op)
    (refused : Option Exn) : (b.call capacity window refused op).2.2.Narrow := by
  cases op with
  | cancel id => exact hn.cancel id
  | reduce id delta => exact hn.reduce id delta
  | add req =>
    obtain ⟨hrest, -⟩ := hfits
    have hsorted : b.book.Sorted := by
      rw [← h.book]
      exact bookOf_sorted s s.levelNodes
    show (b.add capacity window refused req).2.2.Narrow
    rw [MarkedBook.add]
    cases htype : req.type with
    | cancel => exact hn.cancel req.id
    | market => exact hn.taken req
    | ioc => exact hn.taken req
    | fok =>
      dsimp only
      split_ifs
      · exact hn.taken req
      · exact hn
    | limit =>
      dsimp only
      split_ifs with hleft
      · rw [hsorted.left_eq] at hleft ⊢
        have hsum := (hrest (Or.inl ⟨htype, by rw [h.book]; exact hleft⟩)).2
        rw [h.qtyAt_side, h.book, h.capacity] at hsum
        refine (hn.taken req).rest (fun hsize => ?_) _ _
        have hside : qtyAt req.price (b.taken req req.side) = qtyAt req.price (b req.side) := by
          rw [MarkedBook.taken, MarkedBook.forget, qtyAt_rename, if_pos rfl]
        rw [hside]
        refine hsum ?_
        -- an order that crosses and keeps something has used up another one
        cases hcross : b.book.crosses req with
        | true => exact Or.inl rfl
        | false =>
          right
          rwa [MarkedBook.size_eq, MarkedBook.taken_book, taken_of_not_crosses hcross] at hsize
      · exact hn.taken req
    | postOnly =>
      dsimp only
      split_ifs with hcross
      · exact hn
      · have hcross : b.book.crosses req = false := by simpa using hcross
        have hsum := (hrest (Or.inr ⟨htype, by rw [h.book]; exact hcross⟩)).2
        rw [h.qtyAt_side, h.book, h.capacity, hsorted.unfilled_of_not_crosses hcross] at hsum
        refine hn.rest (fun hsize => hsum (Or.inr ?_)) _ _
        rwa [MarkedBook.size_eq] at hsize

/-- Where there is less than a `uint64_t` holds, **the total of a level is the quantity of its orders**. -/
theorem Bears.exactTotals (h : Bears s b capacity window) (hn : b.Narrow) : ExactTotals s s.levelNodes := by
  intro i
  have hs := h.settled
  rw [(hs.level i).total, totalQty_queue, Nat.mod_eq_of_lt]
  rw [← totalQty_queue]
  rcases eq_or_ne (s.levelNodes i) [] with he | hne
  · rw [queue_eq_nil.mpr he, totalQty_nil]
    decide
  have hlen := hs.lt_length hne
  have hprice : ∀ o ∈ s.queue s.levelNodes i, o.price = s.base + i := fun o ho => price_of_mem_queue ho
  have hside : ∃ side, (s.queue s.levelNodes i).Sublist (s.book.side side) := by
    rcases lt_or_ge i s.cut with hcut | hcut
    · exact ⟨.buy, sublist_down hcut⟩
    · exact ⟨.sell, sublist_up hcut (by omega)⟩
  obtain ⟨side, hsub⟩ := hside
  have hle := totalQty_le_qtyAt hprice hsub
  rw [h.qtyAt_side] at hle
  exact hle.trans_lt (hn side _)

/-- The base stays an `int64_t`. -/
theorem Settled.call_base (h : Settled s c) {op : Call} {r : CallResult} (hr : s.call op = .ok r)
    (hb : s.haveBase = true → InI64 s.base) : r.book.haveBase = true → InI64 r.book.base := by
  have hframe : ∀ {t : OrderBookV2}, Frame s t → t.haveBase = true → InI64 t.base := by
    intro t hf
    rwa [hf.haveBase, hf.base]
  cases op with
  | cancel id =>
    obtain ⟨found, s₁, c₁, hrun, hl, -⟩ := h.cancel id
    rw [OrderBookV2.call, hrun] at hr
    cases hr
    exact hframe hl.frame
  | reduce id delta =>
    obtain ⟨found, s₁, c₁, hrun, hl, -⟩ := h.reduce id delta
    rw [OrderBookV2.call, hrun] at hr
    cases hr
    exact hframe hl.frame
  | add req =>
    obtain ⟨a, hadd, hr⟩ := bind_eq_ok.mp hr
    cases hr
    by_cases hrests : (s.bookOf c).Rests req
    · obtain ⟨s₁, c₁, taker, ts, hf, hs₁, -, hrun⟩ := h.add_rests hrests
      rw [hrun] at hadd
      obtain ⟨⟨thrown, s₂⟩, hrest, hadd⟩ := bind_eq_ok.mp hadd
      cases hadd
      exact hs₁.rest_base hrest (hframe hf)
    · exact hframe ((h.add_takes hrests).elim hadd).2

theorem thrown_offAxis_iff {thrown : Option Exn} :
    (∃ e, thrown = some e ∧ e.offAxis = true) ↔
      thrown = some rebasePastMaxLevels ∨ thrown = some growthPastMaxLevels := by
  cases thrown with
  | none => simp
  | some e => simp [Exn.offAxis]

/-- **An `add` that fits** ends, and what it may throw. -/
theorem Settled.add_fits (h : Settled s c) (hw : InI64 s.initialWindow) (hb : s.haveBase = true → InI64 s.base)
    (hexact : ExactTotals s c) (hp : InI64 req.price) (hfits : Fits s (.add req)) :
    ∃ r, s.add req = .ok r ∧
      ((r.thrown = some rebasePastMaxLevels ∨ r.thrown = some growthPastMaxLevels) ↔
        s.book.Rests req ∧ ¬ s.Placeable req.price) ∧
      ∀ e, r.thrown = some e → e.offAxis = true ∨ e = arenaExhausted := by
  obtain ⟨hrest, hfok⟩ := hfits
  by_cases hrests : s.book.Rests req
  · have haxis := (hrest hrests).1
    have hrests' := hrests
    rw [h.book_eq] at hrests'
    obtain ⟨s₁, c₁, taker, ts, hf, hs₁, hprice, hrun⟩ := h.add_rests hrests'
    have haxis₁ : s₁.AxisFits taker.price := by rwa [hf.axisFits, hprice]
    obtain ⟨⟨thrown, s₂⟩, hr⟩ := hs₁.rest_fits (by rwa [hf.window]) (by rwa [hprice]) haxis₁
    have hwindow : WindowFits s₁.initialWindow := by
      by_cases hopen : s₁.haveBase = true
      · exact hs₁.opened hopen
      · rw [OrderBookV2.AxisFits, if_neg hopen] at haxis₁
        exact haxis₁.1
    refine ⟨⟨s₂, ts, thrown⟩, by rw [hrun, hr]; rfl, ?_, fun e he => hs₁.rest_throws hwindow hr he⟩
    rw [← thrown_offAxis_iff, hs₁.rest_refuses_iff hr, hprice, hf.placeable]
    exact ⟨fun hno => ⟨hrests, hno⟩, fun hno => hno.2⟩
  · have hends := h.add_takes (by rwa [← h.book_eq])
    have hnofail : ¬ (req.type = .fok ∧ ∃ u, s.canFullyFill req = .error u) := by
      rintro ⟨htype, u, hu⟩
      obtain ⟨hsums, hscan⟩ := hfok htype
      rw [h.book_eq] at hsums
      obtain ⟨covered, hcovered⟩ := (h.canFullyFill_fits hexact (by rw [htype]; decide) hp hb hsums hscan).1
      rw [hu] at hcovered
      cases hcovered
    obtain ⟨r, hr, hthrown, -⟩ := hends.exists_ok fun _ => hnofail
    refine ⟨r, hr, ?_, fun e he => ?_⟩
    · rw [hthrown]
      exact iff_of_false (by simp) fun hno => hrests hno.1
    · rw [hthrown] at he
      cases he

/-! ### Runs -/

variable {cells : UInt32}

/-- What every state has that calls lead to which fit. -/
theorem ReachedBy.narrow (h : ReachedBy Fits cells window s) :
    ∃ b, Bears s b cells.toNat window ∧ b.Narrow ∧ (s.haveBase = true → InI64 s.base) := by
  induction h with
  | new => exact ⟨_, bears_new cells window, fun _ _ => Nat.two_pow_pos 64, fun hf => nomatch hf⟩
  | call hs hop hmeets hr ih =>
    obtain ⟨b, hb, hnarrow, hbase⟩ := ih
    exact ⟨_, (hb.call hop hr).2, hb.narrow_call hnarrow hmeets _, hb.settled.call_base hr hbase⟩

/-- **How an `add` ends** whose computations stay within their types. -/
structure EndsInRange (s : OrderBookV2) (req : OrderRequest) (r : AddResult) : Prop where
  /-- No addition of the fill-or-kill test wraps around. -/
  sums : req.type = .fok → ∀ x ∈ s.fillAdditions req, x.1.toNat + x.2.toNat < 2 ^ 64
  /-- The price is refused if and only if the level array cannot be made to reach it. -/
  refused : (r.thrown = some rebasePastMaxLevels ∨ r.thrown = some growthPastMaxLevels) ↔
    s.book.Rests req ∧ ¬ s.Placeable req.price
  /-- Nothing else is thrown, but that the arena is full. -/
  thrown : ∀ e, r.thrown = some e → e = rebasePastMaxLevels ∨ e = growthPastMaxLevels ∨
    e = arenaExhausted ∧ r.book.book.orders.length = s.arenaCapacity

/-- **In a run of calls that fit, no computation leaves its type.** Every level total is the quantity of the
level's orders, the best prices are computed, and the next call that fits ends without overflow. -/
theorem arithmetic_fits (cells : UInt32) (window : ℤ) (hwindow : InI64 window) (s : OrderBookV2)
    (h : ReachedBy Fits cells window s) :
    (∀ i, (s.level i).totalQty.toNat = totalQty (s.queue s.levelNodes i)) ∧
      (∃ p, s.bestBid = .ok p) ∧ (∃ p, s.bestAsk = .ok p) ∧
      (∀ op, op.InRange → Fits s op → ∃ r, s.call op = .ok r) ∧
      ∀ req, InI64 req.price → Fits s (.add req) → ∃ r, s.add req = .ok r ∧ EndsInRange s req r := by
  obtain ⟨b, hb, hnarrow, hbase⟩ := h.narrow
  have hs := hb.settled
  have hexact := hb.exactTotals hnarrow
  have hw : InI64 s.initialWindow := by rwa [hb.window]
  have hadd : ∀ req, InI64 req.price → Fits s (.add req) → ∃ r, s.add req = .ok r ∧ EndsInRange s req r := by
    intro req hp hfits
    obtain ⟨r, hr, hrefused, hthrown⟩ := hs.add_fits hw hbase hexact hp hfits
    refine ⟨r, hr, fun htype => ?_, hrefused, fun e he => ?_⟩
    · obtain ⟨hsums, hscan⟩ := hfits.2 htype
      exact (hs.canFullyFill_fits hexact (by rw [htype]; decide) hp hbase hsums hscan).2
    · rcases hthrown e he with hoff | rfl
      · rw [Exn.offAxis, decide_eq_true_eq] at hoff
        rcases hoff with rfl | rfl
        · exact Or.inl rfl
        · exact Or.inr (Or.inl rfl)
      · obtain ⟨c', hadded⟩ := (hs.add hp).elim hr
        refine Or.inr (Or.inr ⟨rfl, ?_⟩)
        rw [hadded.settled.book_eq]
        exact hadded.exhausted he
  refine ⟨hexact, ⟨_, hs.bestBid_eq⟩, ⟨_, hs.bestAsk_eq⟩, fun op hop hfits => ?_, hadd⟩
  cases op with
  | cancel id =>
    obtain ⟨found, s₁, c₁, hrun, -⟩ := hs.cancel id
    exact ⟨⟨s₁, .found found, none⟩, by rw [OrderBookV2.call, hrun]; rfl⟩
  | reduce id delta =>
    obtain ⟨found, s₁, c₁, hrun, -⟩ := hs.reduce id delta
    exact ⟨⟨s₁, .found found, none⟩, by rw [OrderBookV2.call, hrun]; rfl⟩
  | add req =>
    obtain ⟨r, hr, -⟩ := hadd req hop hfits
    exact ⟨⟨r.book, .trades r.trades, r.thrown⟩, by rw [OrderBookV2.call, hr]; rfl⟩

/-- The last price of `int64_t`, on a book that is open around 100: it is refused, as it should be. -/
theorem arithmetic_fits_far :
    ∃ s r, ReachedBy Fits 4 8 s ∧ s.add ⟨2, .sell, .limit, 9223372036854775807, 5⟩ = .ok r ∧
      (r.thrown = some rebasePastMaxLevels ∨ r.thrown = some growthPastMaxLevels) := by
  have hfits : Fits (OrderBookV2.new 4 8) (.add ⟨1, .sell, .limit, 100, 5⟩) := by decide
  have hrun : ((OrderBookV2.new 4 8).call (.add ⟨1, .sell, .limit, 100, 5⟩)).toOption.any (fun r =>
      decide (Fits r.book (.add ⟨2, .sell, .limit, 9223372036854775807, 5⟩) ∧
        r.book.book.Rests ⟨2, .sell, .limit, 9223372036854775807, 5⟩ ∧
        ¬ r.book.Placeable 9223372036854775807)) = true := by decide
  obtain ⟨q, hq, hnext⟩ := exists_of_toOption_any hrun
  obtain ⟨hfits', hrests, hplace⟩ := of_decide_eq_true hnext
  have hs : ReachedBy Fits 4 8 q.book := ReachedBy.new.call (by decide) hfits hq
  obtain ⟨r, hr, hends⟩ := (arithmetic_fits 4 8 (by decide) q.book hs).2.2.2.2 _ (by decide) hfits'
  exact ⟨q.book, r, hs, hr, hends.refused.mpr ⟨hrests, hplace⟩⟩

/-- **Three ways to leave the types**: the first price of `int64_t` overflows on a new book and on one that is open
around 100, before it can be refused; and the total of a level with two orders of `2 ^ 63` shares is 0. -/
theorem arithmetic_leaves :
    (OrderBookV2.new 4 8).add ⟨1, .buy, .limit, -9223372036854775808, 1⟩ = .error .overflow ∧
      ∃ s, Reached 4 8 s ∧ s.add ⟨3, .buy, .limit, -9223372036854775808, 1⟩ = .error .overflow ∧
        s.book.orders = [⟨1, 100, 9223372036854775808⟩, ⟨2, 100, 9223372036854775808⟩] ∧ (s.level 4).totalQty = 0 := by
  have hrun : ((OrderBookV2.new 4 8).after [.add ⟨1, .sell, .limit, 100, 9223372036854775808⟩,
      .add ⟨2, .sell, .limit, 100, 9223372036854775808⟩]).any (fun s =>
        decide ((s.add ⟨3, .buy, .limit, -9223372036854775808, 1⟩).toOption.isNone ∧
          s.book.orders = [⟨1, 100, 9223372036854775808⟩, ⟨2, 100, 9223372036854775808⟩] ∧
          (s.level 4).totalQty = 0)) = true := by decide
  obtain ⟨s, hs, hnext⟩ := (Option.any_eq_true _ _).mp hrun
  obtain ⟨hnone, horders, htotal⟩ := of_decide_eq_true hnext
  have h := (Reachable.new.after hs).reached
  have hp : InI64 (OrderRequest.price ⟨3, .buy, .limit, -9223372036854775808, 1⟩) := by decide
  have hends := h.settled.add hp
  refine ⟨?_, s, h, ?_, horders, htotal⟩
  · rfl
  · cases hadd : s.add ⟨3, .buy, .limit, -9223372036854775808, 1⟩ with
    | ok r =>
      rw [hadd] at hnone
      cases hnone
    | error u =>
      rw [hadd] at hends
      rw [hends.1]

end MatchingEngine
