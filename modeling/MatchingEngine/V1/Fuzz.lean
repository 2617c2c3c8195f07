import MatchingEngine.Core.Workload
import MatchingEngine.V1.Agreement

/-!
# The differential fuzzers

`cpp/fuzz`: `fuzz_v1.cpp` and `fuzz_v2.cpp` run one workload on the two books, and each prints a
line; the lines are compared. Their twins with `_rebase` do so with prices that walk, and with a
window so small that the price axis of the second book grows again and again. A program prints
nothing (`none`) if a call throws, or does what the language leaves undefined.

The two books are the same book at every turn (`Same`), so the programs note the same trades and
print the same line, whatever has been drawn (`fuzz_agrees`).
-/

namespace MatchingEngine.Workload

open Foundation

/-! ### The programs -/

/-- The types of the orders. -/
def orderType (kind : OpKind) : OrderType :=
  if kind = .addLimit then .limit
  else if kind = .addMarket then .market
  else if kind = .addIOC then .ioc
  else if kind = .addFOK then .fok
  else .postOnly

/-- What is printed. -/
structure Line where
  /-- `trades`, `trade_qty` and `checksum`. -/
  totals : Totals
  /-- `depth`. -/
  depth : ℕ
  /-- `best_bid`. -/
  bestBid : ℤ
  /-- `best_ask`. -/
  bestAsk : ℤ
  deriving DecidableEq, Repr

/-- A turn of the loop on the second book. -/
def turnV2 (s : OrderBookV2) (t : Totals) (op : Op) : Option (OrderBookV2 × Totals) :=
  if op.kind = .cancel then do
    let (_, s) ← (s.cancel op.id).toOption
    some (s, t)
  else do
    let r ← (s.add (op.toRequest orderType)).toOption
    if r.thrown = none then some (r.book, r.trades.foldl Totals.add t) else none

/-- The loop on the second book. -/
def loopV2 : OrderBookV2 → Totals → List Op → Option (OrderBookV2 × Totals)
  | s, t, [] => some (s, t)
  | s, t, op :: ops => do
    let (s, t) ← turnV2 s t op
    loopV2 s t ops

/-- What a program prints that runs the operations on the second book. -/
def lineV2 (s : OrderBookV2) (ops : List Op) : Option Line := do
  let (s, t) ← loopV2 s {} ops
  let bestBid ← s.bestBid.toOption
  let bestAsk ← s.bestAsk.toOption
  some ⟨t, s.depth, bestBid, bestAsk⟩

/-- `static_cast<uint64_t>` of a double, which is undefined outside the type. -/
def toUInt64 (p : ℤ) : Option UInt64 := if 0 ≤ p ∧ p < 2 ^ 64 then some (UInt64.ofInt p) else none

/-- `(long long)` of a double. -/
def toLongLong (p : ℤ) : Option ℤ := if InI64 p then some p else none

/-- One trade more of the first engine, whose prices are doubles. -/
def Totals.addDouble (t : Totals) (trade : Trade) : Option Totals := (toUInt64 trade.price).map (t.note trade)

/-- A turn of the loop on the first book. -/
def turnV1 (b : V1.OrderBook) (t : Totals) (op : Op) : Option (V1.OrderBook × Totals) :=
  if op.kind = .cancel then some ((b.add ⟨op.id, .buy, .cancel, 0, 0⟩).2, t)
  else do
    let (trades, b) := b.add { op.toRequest orderType with price := V1.toDouble op.price }
    let t ← trades.foldlM Totals.addDouble t
    some (b, t)

/-- The loop on the first book. -/
def loopV1 : V1.OrderBook → Totals → List Op → Option (V1.OrderBook × Totals)
  | b, t, [] => some (b, t)
  | b, t, op :: ops => do
    let (b, t) ← turnV1 b t op
    loopV1 b t ops

/-- What a program prints that runs the operations on the first book. -/
def lineV1 (ops : List Op) : Option Line := do
  let (b, t) ← loopV1 .new {} ops
  let bestBid ← toLongLong b.bestBid
  let bestAsk ← toLongLong b.bestAsk
  some ⟨t, b.depth, bestBid, bestAsk⟩

/-- `fuzz_v1.cpp`. -/
def fuzzV1 (ds : List (Draw 50)) : Option Line := lineV1 (generateOps ds)

/-- `fuzz_v2.cpp`. -/
def fuzzV2 (ds : List (Draw 50)) : Option Line := lineV2 (.new 1048576 20000) (generateOps ds)

/-- `fuzz_v1_rebase.cpp`. -/
def fuzzV1Rebase (ds : List (Draw 5)) : Option Line := lineV1 (generateOpsPriceWalk ds)

/-- `fuzz_v2_rebase.cpp`. -/
def fuzzV2Rebase (ds : List (Draw 5)) : Option Line := lineV2 (.new 1048576 200) (generateOpsPriceWalk ds)

/-! ### Prices -/

variable {s : OrderBookV2} {c : Layout} {b : V1.OrderBook} {t : Totals} {op : Op} {ops : List Op} {lo hi window : ℤ}

/-- The prices stay where they are when an order with such a price is added, or one is cancelled. -/
theorem Op.priced {b : Book} (h : Priced lo hi b) (covers : Book → OrderRequest → Bool) {type : OpKind → OrderType}
    (hop : op.kind ≠ .cancel → lo ≤ op.price ∧ op.price ≤ hi) : Priced lo hi (b.callWith covers (op.toCall type)).2 := by
  refine h.callWith covers fun req hreq _ => ?_
  rw [Op.toCall] at hreq
  split_ifs at hreq with hkind
  obtain rfl := Call.add.inj hreq
  exact hop hkind

/-- Noting trades whose prices are small comes to the same on both sides. -/
theorem foldlM_addDouble {trades : List Trade} (h : ∀ trade ∈ trades, 0 ≤ trade.price ∧ trade.price < 2 ^ 64) (t : Totals) :
    trades.foldlM Totals.addDouble t = some (trades.foldl Totals.add t) := by
  induction trades generalizing t with
  | nil => rfl
  | cons trade trades ih =>
    have hfirst : t.addDouble trade = some (t.add trade) := by
      rw [Totals.addDouble, toUInt64, if_pos (h trade List.mem_cons_self)]
      rfl
    rw [List.foldlM_cons, hfirst, Option.bind_eq_bind, Option.bind_some, List.foldl_cons]
    exact ih (fun trade ht => h trade (List.mem_cons_of_mem _ ht)) _

/-! ### Turn by turn -/

/-- **The two books are the same**, and their prices are from `lo` to `hi`. -/
structure Same (lo hi : ℤ) (s : OrderBookV2) (c : Layout) (b : V1.OrderBook) : Prop where
  /-- The second book. -/
  settled : Settled s c
  /-- Its index. -/
  tracked : Tracked s c
  /-- The first book. -/
  sound : V1.Sound b
  /-- They have the same orders. -/
  book : b.book = s.bookOf c
  /-- Their prices. -/
  priced : Priced lo hi (s.bookOf c)

/-- The call on the first book. -/
def Op.toV1 (op : Op) : V1.Op := if op.kind = .cancel then .cancel op.id else .add (op.toRequest orderType)

theorem toCall_toV1 (op : Op) : op.toV1.toCall = op.toCall orderType := by
  rw [Op.toV1, Op.toCall]
  split_ifs <;> rfl

theorem orderType_ne_cancel (kind : OpKind) : orderType kind ≠ .cancel := by cases kind <;> decide

/-- A price that is a double. -/
theorem isDouble_of_le {p : ℤ} (h : 0 ≤ p ∧ p ≤ 2 ^ 53) : V1.IsDouble p := ⟨p.natAbs, 0, by omega, by omega⟩

/-- What is noted of an answer. -/
def Totals.answer (t : Totals) : Answer → Totals
  | .trades ts => ts.foldl Totals.add t
  | .found _ => t

/-- A turn on the second book is a call that returns. -/
theorem turnV2_eq {r : CallResult} (hr : s.call (op.toCall orderType) = .ok r) (hthrown : r.thrown = none) (t : Totals) :
    turnV2 s t op = some (r.book, t.answer r.answer) := by
  rw [Op.toCall] at hr
  rw [turnV2]
  split_ifs at hr ⊢ with hkind
  · obtain ⟨⟨found, s'⟩, hcancel, hr⟩ := bind_eq_ok.mp hr
    cases hr
    rw [hcancel]
    rfl
  · obtain ⟨a, hadd, hr⟩ := bind_eq_ok.mp hr
    cases hr
    have hthrown : a.thrown = none := hthrown
    rw [hadd]
    exact if_pos hthrown

/-- A turn on the first book is a call on it, if the prices of the trades are small. -/
theorem turnV1_eq
    (htrades : ∀ ts, (b.call op.toV1).1 = .trades ts → ∀ trade ∈ ts, 0 ≤ trade.price ∧ trade.price < 2 ^ 64) (t : Totals) :
    turnV1 b t op = some ((b.call op.toV1).2, t.answer (b.call op.toV1).1) := by
  rw [Op.toV1] at htrades ⊢
  rw [turnV1]
  split_ifs at htrades ⊢ with hkind
  · rfl
  · have hfold := foldlM_addDouble (htrades _ rfl) t
    exact congrArg (fun x => x >>= fun t => some ((b.call (.add (op.toRequest orderType))).2, t)) hfold

/-- **A turn keeps the two books the same**, and notes the same trades. -/
theorem Same.turn {P : OrderBookV2 → Prop} {calls : List Call} (h : Same lo hi s c b) (hlo : 0 ≤ lo) (hhi : hi ≤ 2 ^ 53)
    (hop : op.kind ≠ .cancel → lo ≤ op.price ∧ op.price ≤ hi) (hrun : s.Returning P (op.toCall orderType :: calls))
    (t : Totals) :
    ∃ s' c' b' t', turnV2 s t op = some (s', t') ∧ turnV1 b t op = some (b', t') ∧ Same lo hi s' c' b' ∧
      s'.Returning P calls := by
  obtain ⟨-, r, c', hcall, hr, hthrown, hrest⟩ := h.settled.returning_cons h.tracked hrun
  have hallowed : op.toV1.toCall.Allowed b.book.ids := by
    rw [toCall_toV1, h.book, ← h.settled.book_eq]
    exact hrun.2.1
  have hdouble : ∀ req, op.toV1 = .add req → V1.IsDouble req.price := by
    intro req hreq
    rw [Op.toV1] at hreq
    split_ifs at hreq with hkind
    obtain rfl := V1.Op.add.inj hreq
    obtain ⟨h1, h2⟩ := hop hkind
    exact isDouble_of_le ⟨hlo.trans h1, h2.trans hhi⟩
  obtain ⟨hsound, hcallV1⟩ := h.sound.call (h.book ▸ h.tracked.ids_nodup h.settled) hallowed hdouble
  have hret := hr.returned hthrown
  rw [toCall_toV1, h.book, ← hret] at hcallV1
  obtain ⟨hanswer, hbook⟩ := Prod.mk.inj hcallV1
  have htrades : ∀ ts, (b.call op.toV1).1 = .trades ts → ∀ trade ∈ ts, 0 ≤ trade.price ∧ trade.price < 2 ^ 64 := by
    intro ts hts trade ht
    rw [hanswer, show r.answer = ((s.bookOf c).callWith Book.coversWrapping (op.toCall orderType)).1 from congrArg Prod.fst hret,
      Op.toCall] at hts
    split_ifs at hts
    · cases hts
    · obtain rfl := Answer.trades.inj hts
      have := h.priced.trades ht
      omega
  refine ⟨r.book, c', (b.call op.toV1).2, t.answer r.answer, turnV2_eq hcall hthrown t, ?_,
    ⟨hr.settled, hr.tracked, hsound, hbook, ?_⟩, hrest⟩
  · rw [← hanswer]
    exact turnV1_eq htrades t
  · rw [show r.book.bookOf c' = _ from congrArg Prod.snd hret]
    exact Op.priced h.priced _ hop

/-- **So do all turns.** -/
theorem Same.loop {P : OrderBookV2 → Prop} (h : Same lo hi s c b) (hlo : 0 ≤ lo) (hhi : hi ≤ 2 ^ 53)
    (hops : ∀ op ∈ ops, op.kind ≠ .cancel → lo ≤ op.price ∧ op.price ≤ hi)
    (hrun : s.Returning P (ops.map (Op.toCall orderType))) (t : Totals) :
    ∃ s' c' b' t', loopV2 s t ops = some (s', t') ∧ loopV1 b t ops = some (b', t') ∧ Same lo hi s' c' b' := by
  induction ops generalizing s c b t with
  | nil => exact ⟨s, c, b, t, rfl, rfl, h⟩
  | cons op ops ih =>
    obtain ⟨s₁, c₁, b₁, t₁, h2, h1, hsame, hrest⟩ := h.turn hlo hhi (hops op List.mem_cons_self) hrun t
    obtain ⟨s', c', b', t', h2', h1', hsame'⟩ :=
      ih hsame (fun op hop => hops op (List.mem_cons_of_mem _ hop)) hrest t₁
    refine ⟨s', c', b', t', ?_, ?_, hsame'⟩
    · rw [loopV2, h2]
      exact h2'
    · rw [loopV1, h1]
      exact h1'

/-! ### The lines -/

/-- **Two programs that run the same operations print the same line.** -/
theorem WellFormed.line_eq (h : WellFormed lo hi ops) (hroom : HasRoom lo hi window) (hlo : 0 ≤ lo) (hhi : hi ≤ 2 ^ 53)
    {capacity : UInt32} (hcap : ops.length ≤ capacity.toNat) :
    ∃ line, lineV1 ops = some line ∧ lineV2 (.new capacity window) ops = some line := by
  obtain ⟨hsound, hempty⟩ := V1.sound_new
  have hnew : Same lo hi (.new capacity window) (fun _ => []) .new :=
    ⟨settled_new capacity window, tracked_new capacity window, hsound, hempty,
      fun side o ho => by cases side <;> cases ho⟩
  obtain ⟨s, c, b, t, h2, h1, hsame⟩ := hnew.loop hlo hhi h.price (h.returning hroom orderType_ne_cancel hcap) {}
  have hview : b.view = V1.View.ofV2 (s.bookOf c).view := hsame.book ▸ hsame.sound.view
  have hbid : b.bestBid = ((s.bookOf c).best .buy).getD 0 := congrArg V1.View.bestBid hview
  have hask : b.bestAsk = ((s.bookOf c).best .sell).getD 0 := congrArg V1.View.bestAsk hview
  have hdepth : b.depth = (s.bookOf c).orders.length := congrArg V1.View.depth hview
  refine ⟨⟨t, b.depth, b.bestBid, b.bestAsk⟩, ?_, ?_⟩
  · rw [lineV1, h1]
    simp only [Option.bind_eq_bind, Option.bind_some]
    have hfits := hsame.priced.inI64_best (by omega) (by omega)
    rw [hbid, hask, toLongLong, toLongLong, if_pos (hfits .buy), if_pos (hfits .sell)]
    rfl
  · rw [lineV2, h2]
    simp only [Option.bind_eq_bind, Option.bind_some]
    rw [hsame.settled.bestBid_eq, hsame.settled.bestAsk_eq, hsame.tracked.depth hsame.settled, hbid, hask, hdepth]
    rfl

/-- **The fuzzers agree**: up to the number of operations that the arena has cells for, both programs of each pair run
to the end and print the same line, whatever has been drawn. -/
theorem fuzz_agrees (ds : List (Draw 50)) (walk : List (Draw 5)) (hds : ds.length ≤ 1048576) (hwalk : walk.length ≤ 1048576) :
    (∃ line, fuzzV1 ds = some line ∧ fuzzV2 ds = some line) ∧
      ∃ line, fuzzV1Rebase walk = some line ∧ fuzzV2Rebase walk = some line := by
  constructor
  · refine (generateOps_wellFormed (by omega)).line_eq ⟨by decide, by decide, by decide, by decide⟩ (by decide) (by decide) ?_
    rw [generateOps, length_loop]
    exact hds
  · have hlen : ((walk.length : ℕ) : ℤ) ≤ 1048576 := by omega
    refine (generateOpsPriceWalk_wellFormed (by omega)).line_eq ⟨by decide, ?_, by decide, ?_⟩ (by decide) (by omega) ?_
    · simp only [kMaxLevels]
      omega
    · omega
    · rw [generateOpsPriceWalk, length_loop]
      exact hwalk

/-- A limit order, a post-only order and a cancel; and a limit order at 10003. -/
theorem fuzz_agrees_three :
    let ds : List (Draw 50) := [⟨3, 1, ⟨7, by decide⟩, ⟨5, by decide⟩, fun _ => 0⟩, ⟨90, 0, ⟨9, by decide⟩, ⟨2, by decide⟩, fun _ => 0⟩,
      ⟨97, 0, ⟨0, by decide⟩, ⟨1, by decide⟩, fun _ => 0⟩]
    let walk : List (Draw 5) := [⟨3, 1, ⟨3, by decide⟩, ⟨5, by decide⟩, fun _ => 0⟩]
    (∃ line, fuzzV1 ds = some line ∧ fuzzV2 ds = some line) ∧
      ∃ line, fuzzV1Rebase walk = some line ∧ fuzzV2Rebase walk = some line :=
  fuzz_agrees _ _ (by decide) (by decide)

end MatchingEngine.Workload
