import MatchingEngine.Core.PriceBand
import Mathlib.Algebra.Order.Ring.Int
import Mathlib.Data.List.Nodup

/-!
# The workload

`cpp/fuzz/workload.h`: the operations on which the two engines are compared with one another, and
the threaded pipeline with the engine, and the checksum by which they are compared. The random
numbers are a parameter. A turn of the loop draws each of them within the bounds of its distribution
(`Draw`), and nothing else is known of them; so what holds for all lists of draws holds for every
seed, and for every generator of random numbers.

The ids that are submitted are different from one another, and the prices stay near the first one
(`WellFormed`). So a book that has room for them returns from every call (`WellFormed.returning`).
-/

namespace MatchingEngine.Workload

/-- `enum class OpKind`. -/
inductive OpKind where
  /-- `AddLimit`. -/
  | addLimit
  /-- `AddMarket`. -/
  | addMarket
  /-- `Cancel`. -/
  | cancel
  /-- `AddIOC`. -/
  | addIOC
  /-- `AddFOK`. -/
  | addFOK
  /-- `AddPostOnly`. -/
  | addPostOnly
  deriving DecidableEq, Repr

/-- `struct Op`. -/
structure Op where
  /-- `kind`. -/
  kind : OpKind
  /-- `id`: the new one, or that of the order to cancel. -/
  id : OrderId
  /-- `is_buy`. -/
  isBuy : Bool
  /-- `price`. -/
  price : ℤ
  /-- `qty`. -/
  qty : Quantity
  deriving DecidableEq, Repr

/-- What a turn of the loop draws, with prices that move by `spread` at most. -/
structure Draw (spread : ℤ) where
  /-- `action_dist`. -/
  action : Fin 100
  /-- `side_dist`. -/
  side : Fin 2
  /-- `price_offset` or `price_step`. -/
  price : { x : ℤ // -spread ≤ x ∧ x ≤ spread }
  /-- `qty_dist`. -/
  qty : { q : ℕ // 1 ≤ q ∧ q ≤ 100 }
  /-- `pick`, when it draws up to `n`. -/
  pick (n : ℕ) : Fin (n + 1)

/-- What the loops keep from turn to turn. -/
structure Gen where
  /-- `live_ids`. -/
  liveIds : List OrderId
  /-- `next_id`. -/
  nextId : OrderId

/-- The kind of an order: the draws below 65 are limit orders, and so on. -/
def addKind (action : Fin 100) : OpKind :=
  if action.val < 65 then .addLimit
  else if action.val < 75 then .addMarket
  else if action.val < 82 then .addIOC
  else if action.val < 89 then .addFOK
  else .addPostOnly

variable {spread : ℤ}

/-- One turn, once there is a price. -/
def turn (price : ℤ) (d : Draw spread) (g : Gen) : Op × Gen :=
  if d.action.val < 95 ∨ g.liveIds.isEmpty then
    (⟨addKind d.action, g.nextId, d.side.val ≠ 0, price, UInt64.ofNat d.qty⟩, ⟨g.liveIds ++ [g.nextId], g.nextId + 1⟩)
  else
    let idx : ℕ := d.pick (g.liveIds.length - 1)
    (⟨.cancel, g.liveIds.getD idx 0, false, 0, 0⟩, ⟨g.liveIds.eraseIdx idx, g.nextId⟩)

/-- The loop of both generators. `next` gives a price, from the last one and what is drawn for it. -/
def loop (next : ℤ → ℤ → ℤ) : ℤ → Gen → List (Draw spread) → List Op
  | _, _, [] => []
  | mid, g, d :: ds =>
    let price := next mid d.price
    (turn price d g).1 :: loop next price (turn price d g).2 ds

/-- `generate_ops`. -/
def generateOps (ds : List (Draw 50)) : List Op := loop (fun _ offset => 10000 + offset) 10000 ⟨[], 1⟩ ds

/-- `generate_ops_price_walk`. -/
def generateOpsPriceWalk (ds : List (Draw 5)) : List Op :=
  loop (fun mid step => if mid + step < 1 then 1 else mid + step) 10000 ⟨[], 1⟩ ds

/-- `struct Checksum`. -/
structure Checksum where
  /-- `h`. -/
  h : UInt64 := 1469598103934665603
  deriving DecidableEq, Repr

/-- `mix`. -/
def Checksum.mix (cs : Checksum) (x : UInt64) : Checksum := ⟨(cs.h ^^^ x) * 1099511628211⟩

/-! ### What the operations are like -/

/-- The id that an operation submits. -/
def Op.newId (op : Op) : Option OrderId := if op.kind = .cancel then none else some op.id

/-- The ids that are submitted. -/
def newIds (ops : List Op) : List OrderId := ops.filterMap Op.newId

variable {next : ℤ → ℤ → ℤ} {price mid : ℤ} {d : Draw spread} {g : Gen} {ds : List (Draw spread)}

theorem addKind_ne_cancel (action : Fin 100) : addKind action ≠ .cancel := by
  rw [addKind]
  split_ifs <;> simp

/-- A turn submits an order under the next id, or it cancels one. -/
theorem turn_cases (price : ℤ) (d : Draw spread) (g : Gen) :
    (turn price d g).1.kind ≠ .cancel ∧ (turn price d g).1.id = g.nextId ∧ (turn price d g).1.price = price ∧
        (turn price d g).2.nextId = g.nextId + 1 ∨
      (turn price d g).1.kind = .cancel ∧ (turn price d g).2.nextId = g.nextId := by
  rw [turn]
  split_ifs
  · exact Or.inl ⟨addKind_ne_cancel _, rfl, rfl, rfl⟩
  · exact Or.inr ⟨rfl, rfl⟩

/-- **The ids that are submitted** are different from one another. -/
theorem loop_ids (h : g.nextId.toNat + ds.length < 2 ^ 64) :
    (newIds (loop next mid g ds)).Nodup ∧ ∀ id ∈ newIds (loop next mid g ds), g.nextId.toNat ≤ id.toNat := by
  induction ds generalizing mid g with
  | nil => exact ⟨List.nodup_nil, fun id hid => by cases hid⟩
  | cons d ds ih =>
    rw [List.length_cons] at h
    rw [loop]
    rcases turn_cases (next mid d.price) d g with ⟨hkind, hid, -, hnext⟩ | ⟨hkind, hnext⟩
    · have hsucc : (g.nextId + 1).toNat = g.nextId.toNat + 1 := by
        rw [UInt64.toNat_add, Nat.mod_eq_of_lt]
        · rfl
        · show g.nextId.toNat + 1 < 2 ^ 64
          omega
      obtain ⟨hnodup, hge⟩ := @ih (next mid d.price) (turn (next mid d.price) d g).2
        (by rw [hnext, hsucc]; omega)
      rw [hnext, hsucc] at hge
      rw [newIds, List.filterMap_cons_some (by rw [Op.newId, if_neg hkind, hid])]
      refine ⟨List.nodup_cons.mpr ⟨fun hmem => ?_, hnodup⟩, fun id hmem => ?_⟩
      · exact absurd (hge _ hmem) (Nat.not_succ_le_self _)
      · rcases List.mem_cons.mp hmem with rfl | hmem
        · exact Nat.le_refl _
        · exact (Nat.le_succ _).trans (hge id hmem)
    · obtain ⟨hnodup, hge⟩ := @ih (next mid d.price) (turn (next mid d.price) d g).2
        (by rw [hnext]; omega)
      rw [hnext] at hge
      rw [newIds, List.filterMap_cons_none (by rw [Op.newId, if_pos hkind])]
      exact ⟨hnodup, hge⟩

theorem length_loop (next : ℤ → ℤ → ℤ) (mid : ℤ) (g : Gen) (ds : List (Draw spread)) :
    (loop next mid g ds).length = ds.length := by
  induction ds generalizing mid g with
  | nil => rfl
  | cons d ds ih => exact congrArg Nat.succ (ih _ _)

/-- **Prices stay within bounds**, if each draw keeps them there; `P` says how far the last one is from leaving
them, with some turns to go. -/
theorem loop_price {lo hi : ℤ} {P : ℤ → ℕ → Prop} (hmid : P mid ds.length)
    (hnext : ∀ m n (x : { x : ℤ // -spread ≤ x ∧ x ≤ spread }), P m (n + 1) → P (next m x) n ∧ lo ≤ next m x ∧ next m x ≤ hi) :
    ∀ op ∈ loop next mid g ds, op.kind ≠ .cancel → lo ≤ op.price ∧ op.price ≤ hi := by
  induction ds generalizing mid g with
  | nil => exact fun op hop => by cases hop
  | cons d ds ih =>
    intro op hop hkind
    obtain ⟨hP, hbounds⟩ := hnext mid ds.length d.price hmid
    rw [loop] at hop
    rcases List.mem_cons.mp hop with rfl | hop
    · rcases turn_cases (next mid d.price) d g with ⟨-, -, hprice, -⟩ | ⟨hcancel, -⟩
      · rw [hprice]
        exact hbounds
      · exact absurd hcancel hkind
    · exact ih hP op hop hkind

/-- **What the engines can rely on.** -/
structure WellFormed (lo hi : ℤ) (ops : List Op) : Prop where
  /-- The ids that are submitted. -/
  ids : (newIds ops).Nodup
  /-- The prices of the orders. -/
  price : ∀ op ∈ ops, op.kind ≠ .cancel → lo ≤ op.price ∧ op.price ≤ hi

theorem generateOps_wellFormed {ds : List (Draw 50)} (h : ds.length < 2 ^ 32) : WellFormed 9950 10050 (generateOps ds) where
  ids := (loop_ids (g := ⟨[], 1⟩) (show 1 + ds.length < 2 ^ 64 by omega)).1
  price := by
    refine loop_price (P := fun _ _ => True) trivial fun m n x _ => ⟨trivial, ?_⟩
    have hx := x.2
    omega

theorem generateOpsPriceWalk_wellFormed {ds : List (Draw 5)} (h : ds.length < 2 ^ 32) :
    WellFormed 1 (10000 + 5 * ds.length) (generateOpsPriceWalk ds) where
  ids := (loop_ids (g := ⟨[], 1⟩) (show 1 + ds.length < 2 ^ 64 by omega)).1
  price := by
    refine loop_price (P := fun m n => 1 ≤ m ∧ m + 5 * n ≤ 10000 + 5 * ds.length) ⟨by decide, le_refl _⟩ fun m n x h => ?_
    have hx := x.2
    push_cast at h
    split_ifs
    · omega
    · omega

/-! ### On an engine -/

/-- The request of an operation that is no cancel, when the kinds of orders have these types. -/
def Op.toRequest (type : OpKind → OrderType) (op : Op) : OrderRequest where
  id := op.id
  side := if op.isBuy then .buy else .sell
  type := type op.kind
  price := op.price
  qty := op.qty

/-- The call of an operation. -/
def Op.toCall (type : OpKind → OrderType) (op : Op) : Call :=
  if op.kind = .cancel then .cancel op.id else .add (op.toRequest type)

variable {type : OpKind → OrderType} {lo hi window : ℤ} {ops : List Op}

theorem newId_toCall (htype : ∀ kind, type kind ≠ .cancel) (op : Op) : (op.toCall type).newId = op.newId := by
  rw [Op.toCall, Op.newId]
  split_ifs
  · rfl
  · exact if_neg (htype op.kind)

/-- The calls are within the band. -/
theorem WellFormed.within (h : WellFormed lo hi ops) (hroom : HasRoom lo hi window) :
    ∀ op ∈ ops.map (Op.toCall type), op.Within lo hi := by
  intro call hcall
  obtain ⟨op, hop, rfl⟩ := List.mem_map.mp hcall
  rw [Op.toCall]
  split_ifs with hkind
  · trivial
  · obtain ⟨hlo, hhi⟩ := h.price op hop hkind
    have hw := hroom.nonneg
    have hlow := hroom.low
    have hhigh := hroom.high
    refine ⟨?_, fun _ => ⟨hlo, hhi⟩⟩
    show InI64 op.price
    rw [InI64]
    omega

/-- **A book that has room for the operations** returns from every call. -/
theorem WellFormed.returning (h : WellFormed lo hi ops) (hroom : HasRoom lo hi window) {capacity : UInt32}
    (htype : ∀ kind, type kind ≠ .cancel) (hcap : ops.length ≤ capacity.toNat) :
    (OrderBookV2.new capacity window).Returning (Confined lo hi) (ops.map (Op.toCall type)) := by
  refine (settled_new capacity window).returning_within (tracked_new capacity window) (confined_new lo hi capacity window)
    hroom (h.within hroom) ?_ (fun id _ hid => ?_) ?_
  · rw [List.filterMap_map, show Call.newId ∘ Op.toCall type = Op.newId from funext (newId_toCall htype)]
    exact h.ids
  · cases hid
  · rw [show ((OrderBookV2.new capacity window).bookOf fun _ => []).orders.length = 0 from rfl, Nat.zero_add]
    refine List.countP_le_length.trans ?_
    rw [List.length_map]
    exact hcap

/-! ### What the programs add up -/

/-- The number of trades, their quantity, and their checksum. -/
structure Totals where
  /-- `total_trades`. -/
  trades : UInt64 := 0
  /-- `total_trade_qty`. -/
  qty : UInt64 := 0
  /-- `cs`. -/
  cs : Checksum := {}
  deriving DecidableEq, Repr

/-- One trade more, with its price as a `uint64_t`. -/
def Totals.note (t : Totals) (trade : Trade) (price : UInt64) : Totals where
  trades := t.trades + 1
  qty := t.qty + trade.qty
  cs := (((t.cs.mix trade.makerId).mix trade.takerId).mix price).mix trade.qty

/-- One trade more of the second engine. -/
def Totals.add (t : Totals) (trade : Trade) : Totals := t.note trade (UInt64.ofInt trade.price)

end MatchingEngine.Workload
