import MatchingEngine.Feed.MarketData
import Mathlib.Data.List.AList
import Mathlib.Logic.Function.Basic

/-!
# Snapshots

`cpp/feed/snapshot.h`: a `Builder` keeps, for every symbol, the resting orders that the
market data events so far imply; its rows can be sent to a subscriber that joins late,
which loads them into a builder of its own.

The maps of the code are iterated in an order that the language does not fix, so nothing
here may depend on the order of `rows`. What a builder knows is said by `Builder.shown`,
where an entry without shares counts as none: `shown_apply` is what an event does to that,
`mem_rows` says that the rows are what is shown, and `shown_load` that loading the rows of
a builder shows the same.
-/

namespace MatchingEngine.Snapshot

open Foundation Moldudp64 Mdfeed

/-- `struct RestingOrder`. -/
structure RestingOrder where
  /-- `side`. -/
  side : Side
  /-- `price`. -/
  price : ℤ
  /-- `qty`. -/
  qty : Quantity
  deriving DecidableEq

/-- `struct SnapshotRow`. -/
structure SnapshotRow where
  /-- `symbol`, padded. -/
  symbol : Vector UInt8 8
  /-- `order_id`. -/
  orderId : OrderId
  /-- `side`. -/
  side : Side
  /-- `price`. -/
  price : ℤ
  /-- `qty`. -/
  qty : Quantity
  deriving DecidableEq

/-- The order of a row. -/
def SnapshotRow.order (r : SnapshotRow) : RestingOrder := ⟨r.side, r.price, r.qty⟩

/-! ### The wire format -/

/-- `kRowLen`. -/
def kRowLen : ℕ := 33

/-- `encode_row`. -/
def encodeRow (r : SnapshotRow) : Bytes :=
  r.symbol.toList ++ (putBe64 r.orderId ++ ([sideByte r.side] ++ (putBe64 (priceBits r.price) ++ putBe64 r.qty)))

/-- `decode_row`. -/
def decodeRow (data : Bytes) : SnapshotRow where
  symbol := readArray 8 0 data
  orderId := getBe64 (data.drop 8)
  side := sideOfByte (data.getD 16 0)
  price := priceOfBits (getBe64 (data.drop 17))
  qty := getBe64 (data.drop 25)

/-- The row count, as `encode_snapshot` writes it. -/
def putCount (count : UInt32) : Bytes :=
  [(count >>> 24).toUInt8, (count >>> 16).toUInt8, (count >>> 8).toUInt8, count.toUInt8]

/-- The row count, as `decode_snapshot` reads it. -/
def getCount (p : Bytes) : UInt32 :=
  ((p.getD 0 0).toUInt32 <<< 24) ||| ((p.getD 1 0).toUInt32 <<< 16) ||| ((p.getD 2 0).toUInt32 <<< 8) |||
    (p.getD 3 0).toUInt32

/-- `encode_snapshot`. -/
def encodeSnapshot (asOfSeq : UInt64) (rows : List SnapshotRow) : Bytes :=
  putBe64 asOfSeq ++ (putCount (UInt32.ofNat rows.length) ++ rows.flatMap encodeRow)

/-- The loop of `decode_snapshot`. -/
def decodeRows : ℕ → Bytes → List SnapshotRow
  | 0, _ => []
  | count + 1, p => decodeRow p :: decodeRows count (p.drop kRowLen)

/-- `decode_snapshot`, with `none` where it returns false. -/
def decodeSnapshot (buf : Bytes) : Option (UInt64 × List SnapshotRow) :=
  if buf.length < 12 then none
  else
    let asOfSeq := getBe64 buf
    let count := getCount (buf.drop 8)
    if buf.length ≠ 12 + count.toNat * kRowLen then none
    else some (asOfSeq, decodeRows count.toNat (buf.drop 12))

@[simp] theorem length_encodeRow (r : SnapshotRow) : (encodeRow r).length = kRowLen := by
  simp [encodeRow, kRowLen]

theorem decodeRow_encodeRow {r : SnapshotRow} (h : InI64 r.price) (rest : Bytes) :
    decodeRow (encodeRow r ++ rest) = r := by
  -- where each field begins
  have hrow : encodeRow r ++ rest = r.symbol.toList ++ (putBe64 r.orderId ++ ([sideByte r.side] ++
      (putBe64 (priceBits r.price) ++ (putBe64 r.qty ++ rest)))) := by
    rw [encodeRow, List.append_assoc, List.append_assoc, List.append_assoc, List.append_assoc]
  have h₀ : (encodeRow r ++ rest).drop 0 = r.symbol.toList ++ _ := hrow
  have h₈ : (encodeRow r ++ rest).drop 8 = putBe64 r.orderId ++ _ := drop_field h₀ r.symbol.length_toList
  have h₁₆ : (encodeRow r ++ rest).drop 16 = [sideByte r.side] ++ _ := drop_field h₈ (length_putBe64 r.orderId)
  have h₁₇ : (encodeRow r ++ rest).drop 17 = putBe64 (priceBits r.price) ++ _ := drop_field h₁₆ rfl
  have h₂₅ : (encodeRow r ++ rest).drop 25 = putBe64 r.qty ++ _ :=
    drop_field h₁₇ (length_putBe64 (priceBits r.price))
  have hside : (encodeRow r ++ rest).getD 16 0 = sideByte r.side := by
    rw [List.getD_eq_getElem?_getD, ← List.head?_drop, h₁₆]
    rfl
  have hsymbol : readArray 8 0 (encodeRow r ++ rest) = r.symbol := by rw [hrow, readArray_toList_append]
  rw [decodeRow, hsymbol, hside, h₈, h₁₇, h₂₅, getBe64_putBe64, getBe64_putBe64, getBe64_putBe64,
    sideOfByte_sideByte, priceOfBits_priceBits h]

theorem decodeRows_encodeRows {rows : List SnapshotRow} (h : ∀ r ∈ rows, InI64 r.price) :
    decodeRows rows.length (rows.flatMap encodeRow) = rows := by
  induction rows with
  | nil => rfl
  | cons r rows ih =>
    rw [List.length_cons, List.flatMap_cons, decodeRows, decodeRow_encodeRow (h r (by simp)),
      List.drop_left' (length_encodeRow r), ih fun q hq => h q (by simp [hq])]

/-- Four bytes that are shifted past one another are added. -/
theorem or_bytes {a b c d : ℕ} (hb : b < 2 ^ 8) (hc : c < 2 ^ 8) (hd : d < 2 ^ 8) :
    a * 2 ^ 24 ||| b * 2 ^ 16 ||| c * 2 ^ 8 ||| d = a * 2 ^ 24 + b * 2 ^ 16 + c * 2 ^ 8 + d := by
  have hor : ∀ x y k : ℕ, y < 2 ^ k → x * 2 ^ k ||| y = x * 2 ^ k + y := by
    intro x y k h
    rw [← Nat.shiftLeft_eq, ← Nat.shiftLeft_add_eq_or_of_lt h]
  rw [hor a _ 24 (by omega), show a * 2 ^ 24 + b * 2 ^ 16 = (a * 2 ^ 8 + b) * 2 ^ 16 by omega,
    hor _ _ 16 (by omega), show (a * 2 ^ 8 + b) * 2 ^ 16 + c * 2 ^ 8 = ((a * 2 ^ 8 + b) * 2 ^ 8 + c) * 2 ^ 8 by omega,
    hor _ _ 8 hd]

theorem getCount_putCount (count : UInt32) (rest : Bytes) : getCount (putCount count ++ rest) = count := by
  have h₀ := count.toNat_lt
  have hmod : ∀ x k : ℕ, x < 2 ^ 8 → k ≤ 24 → x * 2 ^ k % 2 ^ 32 = x * 2 ^ k := by
    intro x k hx hk
    apply Nat.mod_eq_of_lt
    calc x * 2 ^ k < 2 ^ 8 * 2 ^ k := Nat.mul_lt_mul_of_pos_right hx (by positivity)
      _ ≤ 2 ^ 8 * 2 ^ 24 := Nat.mul_le_mul_left _ (Nat.pow_le_pow_right (by decide) hk)
  have hbyte : ∀ x : ℕ, x % 2 ^ 8 < 2 ^ 8 := fun x => Nat.mod_lt _ (by decide)
  rw [← UInt32.toNat_inj]
  simp only [getCount, putCount, List.cons_append, List.nil_append, List.getD_cons_zero, List.getD_cons_succ,
    UInt32.toNat_or, UInt32.toNat_shiftLeft, UInt8.toNat_toUInt32, UInt32.toNat_toUInt8, UInt32.toNat_shiftRight,
    Nat.shiftRight_eq_div_pow, Nat.shiftLeft_eq, UInt32.reduceToNat, Nat.reduceMod]
  rw [hmod _ 24 (hbyte _) le_rfl, hmod _ 16 (hbyte _) (by decide), hmod _ 8 (hbyte _) (by decide),
    or_bytes (hbyte _) (hbyte _) (hbyte _)]
  omega

/-- **A snapshot is read back** as the rows it was written from, if these can be counted. -/
theorem decodeSnapshot_encodeSnapshot {rows : List SnapshotRow} (asOfSeq : UInt64)
    (hp : ∀ r ∈ rows, InI64 r.price) (hlen : rows.length < 2 ^ 32) :
    decodeSnapshot (encodeSnapshot asOfSeq rows) = some (asOfSeq, rows) := by
  have hsize : (rows.flatMap encodeRow).length = rows.length * kRowLen := by
    simp [List.length_flatMap]
  have hcount : (UInt32.ofNat rows.length).toNat = rows.length := UInt32.toNat_ofNat_of_lt' hlen
  have hlen12 : (encodeSnapshot asOfSeq rows).length = 12 + rows.length * kRowLen := by
    simp only [encodeSnapshot, List.length_append, length_putBe64, hsize]
    simp [putCount]
    omega
  have h8 : (encodeSnapshot asOfSeq rows).drop 8 = putCount (UInt32.ofNat rows.length) ++ rows.flatMap encodeRow :=
    List.drop_left' (length_putBe64 asOfSeq)
  have h12 : (encodeSnapshot asOfSeq rows).drop 12 = rows.flatMap encodeRow := by
    rw [show 12 = 8 + 4 from rfl, ← List.drop_drop, h8]
    rfl
  unfold decodeSnapshot
  rw [if_neg (by omega)]
  simp only [h8, getCount_putCount, hcount, hlen12, h12, ne_eq, not_true_eq_false, if_false,
    decodeRows_encodeRows hp]
  rw [encodeSnapshot, getBe64_putBe64]

/-! ### The builder -/

/-- One symbol's orders in a builder. -/
abbrev Orders := AList fun _ : OrderId => RestingOrder

/-- `class Builder`. -/
structure Builder where
  /-- `books_`. -/
  books : AList fun _ : Bytes => Orders
  /-- `last_seq_`. -/
  lastSeq : UInt64

namespace Builder

/-- A new builder. -/
def empty : Builder := ⟨∅, 0⟩

/-- The orders of a symbol: none before the first event for it. -/
def book (b : Builder) (symbol : Bytes) : Orders := (b.books.lookup symbol).getD ∅

/-- The switch of `apply` on the event type. -/
def applyTo (book : Orders) (e : MDEvent) : Orders :=
  match e.type with
  | .add => book.insert e.orderId ⟨e.side, e.price, e.qty⟩
  | .cancel | .trade =>
    match book.lookup e.orderId with
    | none => book
    | some o =>
      if o.qty ≤ e.qty then book.erase e.orderId else book.insert e.orderId { o with qty := o.qty - e.qty }
  | .delete => book.erase e.orderId
  | .replace => (book.erase e.orderId).insert e.newOrderId ⟨e.side, e.price, e.qty⟩
  | .unnamed _ _ => book

/-- `apply`. -/
def apply (b : Builder) (seq : UInt64) (e : MDEvent) : Builder where
  books := b.books.insert (symbolStr e.symbol) (applyTo (b.book (symbolStr e.symbol)) e)
  lastSeq := seq

/-- Event after event, numbered from `seq` on. -/
def applyAll (b : Builder) : UInt64 → List MDEvent → Builder
  | _, [] => b
  | seq, e :: events => (b.apply seq e).applyAll (seq + 1) events

/-- The loop of `load`. -/
def loadRows (b : Builder) : List SnapshotRow → Builder
  | [] => b
  | r :: rows =>
    let book := (b.book (symbolStr r.symbol)).insert r.orderId r.order
    { b with books := b.books.insert (symbolStr r.symbol) book }.loadRows rows

/-- `load`. -/
def load (_b : Builder) (asOfSeq : UInt64) (rows : List SnapshotRow) : Builder :=
  loadRows { books := ∅, lastSeq := asOfSeq } rows

/-- `rows`. -/
def rows (b : Builder) : List SnapshotRow :=
  b.books.entries.flatMap fun s =>
    (s.2.entries.filter fun o => o.2.qty ≠ 0).map fun o => ⟨symbolPad s.1, o.1, o.2.side, o.2.price, o.2.qty⟩

end Builder

/-! ### What a builder shows -/

/-- An order that has shares. -/
def RestingOrder.shown (o : RestingOrder) : Option RestingOrder := if o.qty = 0 then none else some o

/-- What is left of an order that shares leave. -/
def RestingOrder.minus (o : RestingOrder) (qty : Quantity) : Option RestingOrder :=
  if o.qty ≤ qty then none else some { o with qty := o.qty - qty }

/-- What an event does to what is shown of its symbol. -/
def effect (e : MDEvent) (d : OrderId → Option RestingOrder) : OrderId → Option RestingOrder :=
  match e.type with
  | .add => Function.update d e.orderId (RestingOrder.shown ⟨e.side, e.price, e.qty⟩)
  | .cancel | .trade => Function.update d e.orderId ((d e.orderId).bind (·.minus e.qty))
  | .delete => Function.update d e.orderId none
  | .replace =>
    Function.update (Function.update d e.orderId none) e.newOrderId (RestingOrder.shown ⟨e.side, e.price, e.qty⟩)
  | .unnamed _ _ => d

/-- What is shown of a symbol's orders. -/
def Orders.shown (book : Orders) (id : OrderId) : Option RestingOrder := (book.lookup id).bind RestingOrder.shown

/-- What a builder shows of a symbol. -/
def Builder.shown (b : Builder) (symbol : Bytes) : OrderId → Option RestingOrder := (b.book symbol).shown

@[simp] theorem RestingOrder.shown_eq_some {o o' : RestingOrder} : o.shown = some o' ↔ o = o' ∧ o.qty ≠ 0 := by
  unfold RestingOrder.shown
  split_ifs with h <;> simp [h]

theorem shown_insert (book : Orders) (id : OrderId) (o : RestingOrder) :
    Orders.shown (book.insert id o) = Function.update (Orders.shown book) id o.shown := by
  funext id'
  by_cases h : id' = id
  · subst h
    simp [Orders.shown]
  · simp [Orders.shown, AList.lookup_insert_ne h, Function.update_of_ne h]

theorem shown_erase (book : Orders) (id : OrderId) :
    Orders.shown (book.erase id) = Function.update (Orders.shown book) id none := by
  funext id'
  by_cases h : id' = id
  · subst h
    simp [Orders.shown]
  · simp [Orders.shown, AList.lookup_erase_ne h, Function.update_of_ne h]

/-- Shares leave an order: the entry goes with the last of them, or it had none. -/
theorem shown_reduce (book : Orders) (id : OrderId) (qty : Quantity) {o : RestingOrder}
    (hl : book.lookup id = some o) :
    Orders.shown (if o.qty ≤ qty then book.erase id else book.insert id { o with qty := o.qty - qty }) =
      Function.update (Orders.shown book) id ((Orders.shown book id).bind (·.minus qty)) := by
  have hs : Orders.shown book id = o.shown := by simp [Orders.shown, hl]
  rw [hs, RestingOrder.shown]
  split_ifs with hle h0 h0
  · exact shown_erase _ _
  · rw [shown_erase, Option.bind_some, RestingOrder.minus, if_pos hle]
  · rw [h0] at hle
    exact absurd (UInt64.zero_le) hle
  · have hne : o.qty - qty ≠ 0 := by
      rw [← UInt64.toNat_inj.ne, UInt64.toNat_sub_of_le _ _ (UInt64.le_of_lt (UInt64.not_le.mp hle))]
      rw [UInt64.le_iff_toNat_le] at hle
      show o.qty.toNat - qty.toNat ≠ 0
      omega
    rw [shown_insert, Option.bind_some, RestingOrder.minus, if_neg hle, RestingOrder.shown, if_neg hne]

theorem shown_applyTo (book : Orders) (e : MDEvent) :
    Orders.shown (Builder.applyTo book e) = effect e (Orders.shown book) := by
  have hnone : book.lookup e.orderId = none → Orders.shown book =
      Function.update (Orders.shown book) e.orderId ((Orders.shown book e.orderId).bind (·.minus e.qty)) := by
    intro hl
    have hs : Orders.shown book e.orderId = none := by simp [Orders.shown, hl]
    rw [hs, Option.bind_none]
    exact (Function.update_eq_self_iff.mpr hs.symm).symm
  unfold Builder.applyTo effect
  cases e.type with
  | add => exact shown_insert _ _ _
  | delete => exact shown_erase _ _
  | replace =>
    rw [← shown_erase]
    exact shown_insert _ _ _
  | unnamed _ _ => rfl
  | _ =>
    -- a cancel or a trade
    cases hl : book.lookup e.orderId with
    | none => simpa only using hnone hl
    | some o => simpa only using shown_reduce book e.orderId e.qty hl

/-- **What an event does** to what a builder shows. -/
theorem shown_apply (b : Builder) (seq : UInt64) (e : MDEvent) :
    (b.apply seq e).shown =
      Function.update b.shown (symbolStr e.symbol) (effect e (b.shown (symbolStr e.symbol))) := by
  funext symbol
  by_cases h : symbol = symbolStr e.symbol
  · subst h
    rw [Function.update_self]
    unfold Builder.shown
    rw [← shown_applyTo]
    simp [Builder.apply, Builder.book]
  · rw [Function.update_of_ne h]
    simp [Builder.shown, Builder.apply, Builder.book, AList.lookup_insert_ne h]

/-! ### Rows -/

/-- What holds of every builder that events with 64-bit prices, or rows with such prices, have made. -/
structure Builder.Ok (b : Builder) : Prop where
  /-- The symbols are what is left of padded ones. -/
  trimmed : ∀ symbol ∈ b.books, symbolStr (symbolPad symbol) = symbol
  /-- The prices are 64-bit ones. -/
  prices : ∀ symbol id o, (b.book symbol).lookup id = some o → InI64 o.price

theorem Builder.Ok.empty : Builder.empty.Ok where
  trimmed symbol h := absurd h (AList.notMem_empty symbol)
  prices symbol id o h := by simp [Builder.empty, Builder.book] at h

/-- A symbol's orders are replaced by others. -/
theorem Builder.Ok.insert {b : Builder} (h : b.Ok) (raw : Vector UInt8 8) {book : Orders}
    (hb : ∀ id o, book.lookup id = some o → InI64 o.price) (seq : UInt64) :
    Builder.Ok ⟨b.books.insert (symbolStr raw) book, seq⟩ where
  trimmed symbol hs := by
    obtain rfl | hs := AList.mem_insert _ |>.mp hs
    · rw [symbolPad_symbolStr]
    · exact h.trimmed symbol hs
  prices symbol id o hl := by
    by_cases hs : symbol = symbolStr raw
    · subst hs
      simp only [Builder.book, AList.lookup_insert, Option.getD_some] at hl
      exact hb id o hl
    · simp only [Builder.book, AList.lookup_insert_ne hs] at hl
      exact h.prices symbol id o hl

/-- A price in a symbol's orders after an event was there, or is the event's. -/
theorem price_of_applyTo {book : Orders} {e : MDEvent} {id : OrderId} {o : RestingOrder}
    (h : (Builder.applyTo book e).lookup id = some o) :
    o.price = e.price ∨ ∃ id' o', book.lookup id' = some o' ∧ o.price = o'.price := by
  have hins : ∀ (m : Orders) (k : OrderId) (v : RestingOrder), (m.insert k v).lookup id = some o →
      o = v ∨ m.lookup id = some o := by
    intro m k v hl
    by_cases hk : id = k
    · subst hk
      rw [AList.lookup_insert] at hl
      exact Or.inl (Option.some.inj hl).symm
    · rw [AList.lookup_insert_ne hk] at hl
      exact Or.inr hl
  have hers : ∀ (m : Orders) (k : OrderId), (m.erase k).lookup id = some o → m.lookup id = some o := by
    intro m k hl
    by_cases hk : id = k
    · subst hk
      simp at hl
    · rwa [AList.lookup_erase_ne hk] at hl
  unfold Builder.applyTo at h
  cases ht : e.type with
  | add =>
    simp only [ht] at h
    obtain rfl | h := hins _ _ _ h
    · exact Or.inl rfl
    · exact Or.inr ⟨id, o, h, rfl⟩
  | delete =>
    simp only [ht] at h
    exact Or.inr ⟨id, o, hers _ _ h, rfl⟩
  | replace =>
    simp only [ht] at h
    obtain rfl | h := hins _ _ _ h
    · exact Or.inl rfl
    · exact Or.inr ⟨id, o, hers _ _ h, rfl⟩
  | unnamed code hc =>
    simp only [ht] at h
    exact Or.inr ⟨id, o, h, rfl⟩
  | _ =>
    simp only [ht] at h
    cases hl : book.lookup e.orderId with
    | none =>
      simp only [hl] at h
      exact Or.inr ⟨id, o, h, rfl⟩
    | some o' =>
      simp only [hl] at h
      split_ifs at h
      · exact Or.inr ⟨id, o, hers _ _ h, rfl⟩
      · obtain rfl | h := hins _ _ _ h
        · exact Or.inr ⟨e.orderId, o', hl, rfl⟩
        · exact Or.inr ⟨id, o, h, rfl⟩

/-- **An event keeps a builder in order.** -/
theorem Builder.Ok.apply {b : Builder} (h : b.Ok) (seq : UInt64) {e : MDEvent} (he : InI64 e.price) :
    (b.apply seq e).Ok := by
  apply h.insert
  intro id o hl
  obtain hp | ⟨id', o', hl', hp⟩ := price_of_applyTo hl
  · rwa [hp]
  · rw [hp]
    exact h.prices _ _ _ hl'

/-- **The rows are what is shown.** -/
theorem mem_rows {b : Builder} (h : b.Ok) (r : SnapshotRow) :
    r ∈ b.rows ↔ b.shown (symbolStr r.symbol) r.orderId = some r.order := by
  simp only [Builder.rows, List.mem_flatMap, List.mem_map, List.mem_filter]
  constructor
  · rintro ⟨⟨symbol, book⟩, hs, ⟨id, o⟩, ⟨ho, hq⟩, rfl⟩
    have hbook : b.books.lookup symbol = some book := AList.mem_lookup_iff.mpr hs
    have hl : book.lookup id = some o := AList.mem_lookup_iff.mpr ho
    have ht : symbolStr (symbolPad symbol) = symbol :=
      h.trimmed symbol (AList.lookup_isSome.mp (by rw [hbook]; rfl))
    have hq' : o.qty ≠ 0 := by simpa using hq
    have hb : b.book symbol = book := by simp [Builder.book, hbook]
    show b.shown (symbolStr (symbolPad symbol)) id = some o
    rw [ht, Builder.shown, hb, Orders.shown, hl, Option.bind_some, RestingOrder.shown, if_neg hq']
  · intro hs
    unfold Builder.shown Builder.book Orders.shown at hs
    obtain ⟨o, hl, ho⟩ := Option.bind_eq_some_iff.mp hs
    obtain ⟨rfl, hq⟩ := RestingOrder.shown_eq_some.mp ho
    cases hbook : b.books.lookup (symbolStr r.symbol) with
    | none => simp [hbook] at hl
    | some book =>
      rw [hbook, Option.getD_some] at hl
      refine ⟨⟨_, book⟩, AList.mem_lookup_iff.mp hbook, ⟨_, r.order⟩, ⟨AList.mem_lookup_iff.mp hl, ?_⟩, ?_⟩
      · simpa using hq
      · simp [SnapshotRow.order]

/-! ### Loading -/

theorem loadRows_lastSeq (b : Builder) (rows : List SnapshotRow) : (b.loadRows rows).lastSeq = b.lastSeq := by
  induction rows generalizing b with
  | nil => rfl
  | cons r rows ih => rw [Builder.loadRows, ih]

theorem Builder.Ok.loadRows {b : Builder} (h : b.Ok) {rows : List SnapshotRow} (hr : ∀ r ∈ rows, InI64 r.price) :
    (b.loadRows rows).Ok := by
  induction rows generalizing b with
  | nil => exact h
  | cons r rows ih =>
    refine ih (h.insert _ ?_ _) fun q hq => hr q (by simp [hq])
    intro id o hl
    by_cases hid : id = r.orderId
    · subst hid
      rw [AList.lookup_insert] at hl
      rw [← Option.some.inj hl]
      exact hr r (by simp)
    · rw [AList.lookup_insert_ne hid] at hl
      exact h.prices _ _ _ hl

/-- An order that no row is about stays as it was. -/
theorem lookup_loadRows_of_not {b : Builder} {rows : List SnapshotRow} {symbol : Bytes} {id : OrderId}
    (h : ∀ r ∈ rows, symbolStr r.symbol = symbol → r.orderId ≠ id) :
    ((b.loadRows rows).book symbol).lookup id = (b.book symbol).lookup id := by
  induction rows generalizing b with
  | nil => rfl
  | cons r rows ih =>
    rw [Builder.loadRows, ih fun q hq => h q (by simp [hq])]
    by_cases hs : symbol = symbolStr r.symbol
    · subst hs
      have hid : id ≠ r.orderId := (h r (by simp) rfl).symm
      simp [Builder.book, AList.lookup_insert_ne hid]
    · simp [Builder.book, AList.lookup_insert_ne hs]

/-- An order that a row is about is the row's, where no other row is about it. -/
theorem lookup_loadRows_of_mem {b : Builder} {rows : List SnapshotRow} {r : SnapshotRow} (hr : r ∈ rows)
    (hone : ∀ q ∈ rows, symbolStr q.symbol = symbolStr r.symbol → q.orderId = r.orderId → q = r) :
    ((b.loadRows rows).book (symbolStr r.symbol)).lookup r.orderId = some r.order := by
  induction rows generalizing b with
  | nil => cases hr
  | cons q rows ih =>
    have hone' : ∀ p ∈ rows, symbolStr p.symbol = symbolStr r.symbol → p.orderId = r.orderId → p = r :=
      fun p hp => hone p (by simp [hp])
    rw [Builder.loadRows]
    by_cases hmem : r ∈ rows
    · exact ih hmem hone'
    · have hqr : q = r := by
        obtain rfl | h := List.mem_cons.mp hr
        · rfl
        · exact absurd h hmem
      subst hqr
      rw [lookup_loadRows_of_not fun p hp hs hid => hmem (by rwa [← hone' p hp hs hid])]
      simp [Builder.book]

/-- **Loading the rows of a builder** shows what it shows. -/
theorem shown_load {b : Builder} (h : b.Ok) (b₀ : Builder) (asOfSeq : UInt64) {rows : List SnapshotRow}
    (hrows : ∀ r, r ∈ rows ↔ r ∈ b.rows) : (b₀.load asOfSeq rows).shown = b.shown := by
  have hone : ∀ r ∈ rows, ∀ q ∈ rows, symbolStr q.symbol = symbolStr r.symbol → q.orderId = r.orderId → q = r := by
    intro r hr q hq hs hid
    have h₁ := (mem_rows h r).mp ((hrows r).mp hr)
    have h₂ := (mem_rows h q).mp ((hrows q).mp hq)
    rw [hs, hid, h₁] at h₂
    have hsym : q.symbol = r.symbol := by
      rw [← symbolPad_symbolStr q.symbol, hs, symbolPad_symbolStr]
    cases q
    cases r
    simp_all [SnapshotRow.order]
  funext symbol id
  cases hb : b.shown symbol id with
  | none =>
    have hno : ∀ r ∈ rows, symbolStr r.symbol = symbol → r.orderId ≠ id := by
      rintro r hr rfl rfl
      rw [(mem_rows h r).mp ((hrows r).mp hr)] at hb
      cases hb
    unfold Builder.shown Orders.shown Builder.load
    rw [lookup_loadRows_of_not hno]
    rfl
  | some o =>
    -- the row of this order
    have hq : o.qty ≠ 0 := by
      obtain ⟨o', -, ho⟩ := Option.bind_eq_some_iff.mp hb
      obtain ⟨rfl, hq⟩ := RestingOrder.shown_eq_some.mp ho
      exact hq
    have hmem : symbol ∈ b.books := by
      by_contra hn
      have := AList.lookup_eq_none.mpr hn
      simp [Builder.shown, Builder.book, this, Orders.shown] at hb
    let r : SnapshotRow := ⟨symbolPad symbol, id, o.side, o.price, o.qty⟩
    have hsym : symbolStr r.symbol = symbol := h.trimmed symbol hmem
    have hr : r ∈ rows := by
      rw [hrows, mem_rows h, hsym]
      exact hb
    have hl : ((b₀.load asOfSeq rows).book (symbolStr r.symbol)).lookup r.orderId = some r.order :=
      lookup_loadRows_of_mem hr fun q hq => hone r hr q hq
    rw [hsym] at hl
    rw [Builder.shown, Orders.shown, hl, Option.bind_some]
    exact if_neg hq

end MatchingEngine.Snapshot
