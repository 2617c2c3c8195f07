import MatchingEngine.Core.Matching

/-!
# Leaving the book

`cancel` unlinks the cell that the index names, and moves the cursor when the level of the
best price has become empty; `reduce` takes quantity away and leaves the queue alone, unless
nothing would remain. On a book whose index names every order they are `Book.cancel` and
`Book.reduce`. Neither fails, whatever the id.
-/

namespace MatchingEngine

open Foundation Function OrderBookV2

variable {s : OrderBookV2} {c : Layout} {i x : ℕ} {id : OrderId} {e : IndexEntry}

/-! ### The cell that an entry names -/

/-- Where the cell of an entry is. -/
theorem Represents.entry_split (h : Represents s c) (he : s.index.find id = some e) :
    ∃ (i : ℕ) (as bs : List ℕ), e.levelIdx = i ∧ c i = as ++ e.nodeIdx :: bs := by
  have hk := h.entry he
  obtain ⟨i, hi⟩ := Int.eq_ofNat_of_zero_le hk.nonneg
  have hm := hk.mem
  rw [hi, Int.toNat_natCast] at hm
  obtain ⟨as, bs, hc⟩ := List.append_of_mem hm
  exact ⟨i, as, bs, hi, hc⟩

/-- A cell in the middle of a queue has neighbours in it, or none. -/
theorem Represents.neighbours (h : Represents s c) {as bs : List ℕ} (hc : c i = as ++ x :: bs) :
    ((s.arena x).prev ≠ kNil → (s.arena x).prev < s.arenaCapacity) ∧
      ((s.arena x).next ≠ kNil → (s.arena x).next < s.arenaCapacity) := by
  have hl := (h.level i).links
  rw [hc] at hl
  obtain ⟨hprev, hnext⟩ := hl.mid
  have hprev : (s.arena x).prev = as.getLastD kNil := hprev
  have hnext : (s.arena x).next = bs.headD kNil := hnext
  constructor
  · intro hne
    rcases getLastD_mem_or kNil as with hm | rfl
    · rw [hprev]
      exact h.lt_capacity (i := i) (by rw [hc]; exact List.mem_append_left _ hm)
    · exact absurd hprev hne
  · intro hne
    rcases headD_mem_or kNil bs with hm | rfl
    · rw [hnext]
      exact h.lt_capacity (i := i) (by rw [hc]; exact List.mem_append_right _ (List.mem_cons_of_mem _ hm))
    · exact absurd hnext hne

/-- **`cancel` unlinks the cell that the index names.** -/
theorem Represents.unlinkNode (h : Represents s c) (he : s.index.find id = some e) {as bs : List ℕ}
    (hi : e.levelIdx = i) (hc : c i = as ++ e.nodeIdx :: bs) :
    s.unlinkNode id e = .ok (s.unlink i e.nodeIdx) := by
  have hxm : e.nodeIdx ∈ c i := by simp [hc]
  have hlt := h.lt_length (List.ne_nil_of_mem hxm)
  have hx := h.lt_capacity hxm
  have hid : (s.arena e.nodeIdx).id = id := (h.entry he).id
  obtain ⟨hp, hn⟩ := h.neighbours hc
  by_cases hp0 : (s.arena e.nodeIdx).prev = kNil <;> by_cases hn0 : (s.arena e.nodeIdx).next = kNil
  · simp [OrderBookV2.unlinkNode, nodeAt_ok, modifyLevel_ok, level_setLevel, hx, hlt, hi, hp0, hn0]
    simp [OrderBookV2.unlink, joined, levelWithout, freeNode, setLevel, hp0, hn0, hid]
  · simp [OrderBookV2.unlinkNode, nodeAt_ok, modifyLevel_ok, modifyNode_ok, level_setLevel, hx, hlt, hi, hp0, hn0, hn hn0]
    simp [OrderBookV2.unlink, joined, levelWithout, freeNode, setLevel, setNode, hp0, hn0, hid]
  · simp [OrderBookV2.unlinkNode, nodeAt_ok, modifyLevel_ok, modifyNode_ok, level_setLevel, hx, hlt, hi, hp0, hn0, hp hp0]
    simp [OrderBookV2.unlink, joined, levelWithout, freeNode, setLevel, setNode, hp0, hn0, hid]
  · simp [OrderBookV2.unlinkNode, nodeAt_ok, modifyLevel_ok, modifyNode_ok, level_setLevel, hx, hlt, hi, hp0, hn0, hp hp0,
      hn hn0]
    simp [OrderBookV2.unlink, joined, levelWithout, freeNode, setLevel, setNode, hp0, hn0, hid]

/-- The cursors that do not name the level stay on levels in use. -/
theorem Settled.unlink_live (h : Settled s c) {as bs : List ℕ} (hc : c i = as ++ x :: bs)
    (hbid : as ++ bs = [] → s.bestBidIdx ≠ i) (hask : as ++ bs = [] → s.bestAskIdx ≠ i) :
    Settled (s.unlink i x) (update c i (as ++ bs)) := by
  have hkeep : ∀ j : ℕ, c j ≠ [] → (as ++ bs = [] → j ≠ i) → update c i (as ++ bs) j ≠ [] := by
    intro j hj hne
    rcases eq_or_ne j i with rfl | hji
    · rw [update_self]
      exact fun he => hne he rfl
    · rwa [update_of_ne hji]
  refine ⟨h.toRepresents.unlink hc, fun hb => hkeep _ (h.bid hb) fun he => ?_, fun ha => hkeep _ (h.ask ha) fun he => ?_⟩
  · have := hbid he
    have hb : 0 ≤ s.bestBidIdx := hb
    show s.bestBidIdx.toNat ≠ i
    omega
  · have := hask he
    have ha : 0 ≤ s.bestAskIdx := ha
    show s.bestAskIdx.toNat ≠ i
    omega

/-- **The cursor is right again** after the cell has left. -/
theorem Settled.afterUnlink (h : Settled s c) (hi : e.levelIdx = i) {as bs : List ℕ} (hc : c i = as ++ x :: bs)
    (hside : e.side = .buy ↔ e.levelIdx ≤ s.bestBidIdx) :
    ∃ s', (s.unlink i x).afterUnlink e = .ok s' ∧ Settled s' (update c i (as ++ bs)) ∧
      s'.bookOf (update c i (as ++ bs)) = (s.unlink i x).bookOf (update c i (as ++ bs)) ∧
      Frame (s.unlink i x) s' ∧
      (Tracked (s.unlink i x) (update c i (as ++ bs)) → Tracked s' (update c i (as ++ bs))) := by
  have hr := h.toRepresents.unlink hc
  have hxm : x ∈ c i := by simp [hc]
  have hne := List.ne_nil_of_mem hxm
  have hlt : i < (s.unlink i x).levels.length := by rw [frame_unlink.length]; exact h.lt_length hne
  have hhead := hr.head_eq_nil i
  rw [update_self] at hhead
  rw [OrderBookV2.afterUnlink, hi, levelAt_ok hlt, ok_bind]
  have hstay : ∀ t : OrderBookV2, t = s.unlink i x → Settled t (update c i (as ++ bs)) →
      ∃ s', Except.ok (ε := Ub) (s.unlink i x) = .ok s' ∧ Settled s' (update c i (as ++ bs)) ∧
        s'.bookOf (update c i (as ++ bs)) = (s.unlink i x).bookOf (update c i (as ++ bs)) ∧
        Frame (s.unlink i x) s' ∧
        (Tracked (s.unlink i x) (update c i (as ++ bs)) → Tracked s' (update c i (as ++ bs))) := by
    rintro t rfl ht
    exact ⟨s.unlink i x, rfl, ht, rfl, Frame.refl _, id⟩
  by_cases hempty : as ++ bs = []
  · have hnil : update c i (as ++ bs) i = [] := by rw [update_self, hempty]
    rw [if_pos (hhead.mpr hempty)]
    have hcur := h.cursors
    have hsplit := hcur.split i hne
    by_cases hb : e.side = .buy ∧ (i : ℤ) = s.bestBidIdx
    · have hk : s.bestIdx .buy = i := hb.2.symm
      have hother : 0 ≤ (s.unlink i x).bestIdx Side.buy.opposite →
          update c i (as ++ bs) ((s.unlink i x).bestIdx Side.buy.opposite).toNat ≠ [] :=
        h.toRepresents.other_live h.toLive hk _
      obtain ⟨s', h1, h2, h3, -, h5, h6⟩ := hr.advance (show (s.unlink i x).bestIdx .buy = i from hk) hlt hnil hother
      rw [if_pos (show _ ∧ (i : ℤ) = (s.unlink i x).bestBidIdx from hb)]
      exact ⟨s', h1, h2, h3, h5, h6⟩
    by_cases ha : e.side = .sell ∧ (i : ℤ) = s.bestAskIdx
    · have hk : s.bestIdx .sell = i := ha.2.symm
      have hother : 0 ≤ (s.unlink i x).bestIdx Side.sell.opposite →
          update c i (as ++ bs) ((s.unlink i x).bestIdx Side.sell.opposite).toNat ≠ [] :=
        h.toRepresents.other_live h.toLive hk _
      obtain ⟨s', h1, h2, h3, -, h5, h6⟩ := hr.advance (show (s.unlink i x).bestIdx .sell = i from hk) hlt hnil hother
      rw [if_neg (show ¬ (_ ∧ (i : ℤ) = (s.unlink i x).bestBidIdx) from hb),
        if_pos (show _ ∧ (i : ℤ) = (s.unlink i x).bestAskIdx from ha)]
      exact ⟨s', h1, h2, h3, h5, h6⟩
    rw [if_neg (show ¬ (_ ∧ (i : ℤ) = (s.unlink i x).bestBidIdx) from hb),
      if_neg (show ¬ (_ ∧ (i : ℤ) = (s.unlink i x).bestAskIdx) from ha)]
    refine hstay _ rfl (h.unlink_live hc (fun _ he => hb ⟨?_, he.symm⟩) fun _ he => ha ⟨?_, he.symm⟩)
    · rw [hside, hi, he]
    · have hun := hcur.uncrossed (by omega)
      cases hs : e.side with
      | sell => rfl
      | buy =>
        have := hside.mp hs
        omega
  · rw [if_neg (hhead.not.mpr hempty)]
    exact hstay _ rfl (h.unlink_live hc (fun he => absurd he hempty) fun he => absurd he hempty)

/-! ### The orders afterwards -/

/-- A change of every queue that respects `++` is a change of both sides. -/
theorem bookOf_hom {s' : OrderBookV2} {c' : Layout} (f : List (Order ℤ OrderId) → List (Order ℤ OrderId))
    (hnil : f [] = []) (happ : ∀ xs ys, f (xs ++ ys) = f xs ++ f ys) (hf : Frame s s')
    (hcut : s'.cut = s.cut) (hq : s'.queue c' = fun j => f (s.queue c j)) :
    s'.bookOf c' = ⟨f (s.bookOf c).bids, f (s.bookOf c).asks⟩ := by
  rw [bookOf, hq, hcut, hf.length, up_hom f hnil happ, down_hom f hnil happ]
  rfl

/-- In the queue of its cell an id is found once, and in the others not at all. -/
theorem Tracked.only (t : Tracked s c) (h : Represents s c) {as bs : List ℕ} (hc : c i = as ++ x :: bs)
    (hid : (s.arena x).id = id) :
    (∀ j, j ≠ i → id ∉ (s.queue c j).map (·.id)) ∧ id ∉ (as.map (s.orderAt i)).map (·.id) ∧
      id ∉ (bs.map (s.orderAt i)).map (·.id) := by
  have hxm : x ∈ c i := by simp [hc]
  have hcell : ∀ {j y}, y ∈ c j → (s.arena y).id = id → y = x := fun hy he => t.cell_inj hy hxm (he.trans hid.symm)
  have hnd := h.partition.nodup i
  rw [hc] at hnd
  have hx := (List.nodup_cons.mp (List.nodup_middle.mp hnd)).1
  rw [List.mem_append, not_or] at hx
  refine ⟨fun j hj hm => ?_, fun hm => ?_, fun hm => ?_⟩
  · obtain ⟨o, ho, he⟩ := List.mem_map.mp hm
    obtain ⟨y, hy, rfl⟩ := mem_queue.mp ho
    exact h.partition.not_mem hxm hj (hcell hy he ▸ hy)
  · obtain ⟨o, ho, he⟩ := List.mem_map.mp hm
    obtain ⟨y, hy, rfl⟩ := List.mem_map.mp ho
    have hyi : y ∈ c i := by
      rw [hc]
      exact List.mem_append_left _ hy
    exact hx.1 (hcell hyi he ▸ hy)
  · obtain ⟨o, ho, he⟩ := List.mem_map.mp hm
    obtain ⟨y, hy, rfl⟩ := List.mem_map.mp ho
    have hyi : y ∈ c i := by
      rw [hc]
      exact List.mem_append_right _ (List.mem_cons_of_mem _ hy)
    exact hx.2 (hcell hyi he ▸ hy)

theorem queue_middle {as bs : List ℕ} (hc : c i = as ++ x :: bs) :
    s.queue c i = as.map (s.orderAt i) ++ s.orderAt i x :: bs.map (s.orderAt i) := by
  rw [queue, hc, List.map_append, List.map_cons]

/-- **An unlinked cell takes its id out of the book.** -/
theorem Tracked.bookOf_unlink (t : Tracked s c) (h : Represents s c) {as bs : List ℕ} (hc : c i = as ++ x :: bs)
    (hid : (s.arena x).id = id) :
    (s.unlink i x).bookOf (update c i (as ++ bs)) = ((s.bookOf c).cancel id).2 := by
  obtain ⟨hother, has, hbs⟩ := t.only h hc hid
  refine bookOf_hom (remove id) rfl (remove_append id) frame_unlink rfl ?_
  rw [queue_unlink h hc]
  funext j
  rcases eq_or_ne j i with rfl | hj
  · rw [update_self, queue_middle hc, remove_append, remove_cons, if_pos (by exact hid), remove_of_not_mem has,
      remove_of_not_mem hbs]
  · rw [update_of_ne hj, remove_of_not_mem (hother j hj)]

/-- **A cell that loses quantity** reduces its id. -/
theorem Tracked.bookOf_debit (t : Tracked s c) (h : Represents s c) {as bs : List ℕ} (hc : c i = as ++ x :: bs)
    (hid : (s.arena x).id = id) {d : Quantity} (hd : d < (s.arena x).qty) :
    (s.debit i x d).bookOf c = ((s.bookOf c).reduce id d).2 := by
  obtain ⟨hother, has, hbs⟩ := t.only h hc hid
  have hd' := UInt64.lt_iff_toNat_lt.mp hd
  refine bookOf_hom (reduceBy id d.toNat) rfl (reduceBy_append id _) (frame_debit d) rfl ?_
  rw [queue_debit h hc (UInt64.le_iff_toNat_le.mpr hd'.le)]
  funext j
  rcases eq_or_ne j i with rfl | hj
  · have hge : ¬ (s.orderAt j x).qty ≤ d.toNat := not_le.mpr hd'
    rw [update_self, queue_middle hc, reduceBy_append, reduceBy_cons, if_pos (by exact hid), if_neg hge,
      reduceBy_of_not_mem has, reduceBy_of_not_mem hbs]
    rfl
  · rw [update_of_ne hj, reduceBy_of_not_mem (hother j hj)]

/-- Reducing by as much as there is, is removing. -/
theorem Tracked.reduce_eq_cancel (t : Tracked s c) (h : Represents s c) {as bs : List ℕ} (hc : c i = as ++ x :: bs)
    (hid : (s.arena x).id = id) {d : Quantity} (hd : (s.arena x).qty ≤ d) :
    (s.bookOf c).reduce id d = (s.bookOf c).cancel id := by
  have hq : ∀ o ∈ (s.bookOf c).orders, o.id = id → o.qty ≤ d.toNat := by
    intro o ho hoid
    obtain ⟨j, hj⟩ := h.mem_orders.mp ho
    obtain ⟨y, hy, rfl⟩ := mem_queue.mp hj
    have hxm : x ∈ c i := by simp [hc]
    obtain rfl := t.cell_inj hy hxm (hoid.trans hid.symm)
    exact UInt64.le_iff_toNat_le.mp hd
  rw [Book.reduce, Book.cancel, reduceBy_eq_remove fun o ho => hq o (List.mem_append_left _ ho),
    reduceBy_eq_remove fun o ho => hq o (List.mem_append_right _ ho)]

/-! ### The two operations -/

/-- What a call that only takes orders away leads to, where the reference book says `b`. -/
structure Lessened (s : OrderBookV2) (c : Layout) (s' : OrderBookV2) (c' : Layout) (b : Book) : Prop where
  /-- The representation is kept. -/
  settled : Settled s' c'
  /-- So is what the index names. -/
  tracked : Tracked s c → Tracked s' c'
  /-- The arena and the axis do not change. -/
  frame : Frame s s'
  /-- The orders are those of the reference book. -/
  book : Tracked s c → s'.bookOf c' = b

theorem Lessened.refl (h : Settled s c) {b : Book} (hb : Tracked s c → s.bookOf c = b) : Lessened s c s c b :=
  ⟨h, id, Frame.refl s, hb⟩

/-- An id that the index does not know does not rest. -/
theorem Tracked.not_mem_ids (t : Tracked s c) (h : Represents s c) (hf : s.index.find id = none) :
    id ∉ (s.bookOf c).ids := by
  rw [← t.find_isSome h, hf]
  simp

theorem cancel_of_not_mem {b : Book} (h : id ∉ b.ids) : b.cancel id = (false, b) := by
  simp only [Book.ids, Book.orders, List.map_append, List.mem_append, not_or] at h
  rw [Book.cancel, remove_of_not_mem h.1, remove_of_not_mem h.2, decide_eq_false]
  simpa [Book.ids, Book.orders] using h

theorem reduce_of_not_mem {b : Book} (h : id ∉ b.ids) (delta : Quantity) : b.reduce id delta = (false, b) := by
  simp only [Book.ids, Book.orders, List.map_append, List.mem_append, not_or] at h
  rw [Book.reduce, reduceBy_of_not_mem h.1, reduceBy_of_not_mem h.2, decide_eq_false]
  simpa [Book.ids, Book.orders] using h

/-- **`cancel`.** -/
theorem Settled.cancel (h : Settled s c) (id : OrderId) :
    ∃ found s' c', s.cancel id = .ok (found, s') ∧ Lessened s c s' c' ((s.bookOf c).cancel id).2 ∧
      found = (s.index.find id).isSome ∧ (Tracked s c → found = ((s.bookOf c).cancel id).1) := by
  rw [OrderBookV2.cancel]
  cases he : s.index.find id with
  | none =>
    refine ⟨false, s, c, rfl, Lessened.refl h fun t => ?_, rfl, fun t => ?_⟩
    · rw [cancel_of_not_mem (t.not_mem_ids h.toRepresents he)]
    · rw [cancel_of_not_mem (t.not_mem_ids h.toRepresents he)]
  | some e =>
    obtain ⟨i, as, bs, hi, hc⟩ := h.toRepresents.entry_split he
    have hk := h.entry he
    obtain ⟨s', hrun, hs, hbook, hframe, htr⟩ := h.afterUnlink hi hc hk.side
    refine ⟨true, s', update c i (as ++ bs), ?_, ⟨hs, fun t => htr (t.unlink h.toRepresents hc),
      frame_unlink.trans hframe, fun t => ?_⟩, rfl, fun _ => ?_⟩
    · dsimp only
      rw [h.toRepresents.unlinkNode he hi hc, ok_bind, hrun]
      rfl
    · rw [hbook, t.bookOf_unlink h.toRepresents hc hk.id]
    · exact (decide_eq_true (h.toRepresents.mem_ids_of_find he)).symm

/-- **`reduce`.** -/
theorem Settled.reduce (h : Settled s c) (id : OrderId) (delta : Quantity) :
    ∃ found s' c', s.reduce id delta = .ok (found, s') ∧ Lessened s c s' c' ((s.bookOf c).reduce id delta).2 ∧
      (Tracked s c → found = ((s.bookOf c).reduce id delta).1) := by
  rw [OrderBookV2.reduce]
  cases he : s.index.find id with
  | none =>
    refine ⟨false, s, c, rfl, Lessened.refl h fun t => ?_, fun t => ?_⟩
    · rw [reduce_of_not_mem (t.not_mem_ids h.toRepresents he)]
    · rw [reduce_of_not_mem (t.not_mem_ids h.toRepresents he)]
  | some e =>
    obtain ⟨i, as, bs, hi, hc⟩ := h.toRepresents.entry_split he
    have hk := h.entry he
    have hxm : e.nodeIdx ∈ c i := by simp [hc]
    have hlt := h.lt_length (List.ne_nil_of_mem hxm)
    have hx := h.lt_capacity hxm
    dsimp only
    rw [nodeAt_ok hx, ok_bind]
    by_cases hle : (s.arena e.nodeIdx).qty ≤ delta
    · -- nothing would remain
      rw [if_pos hle]
      obtain ⟨found, s', c', hrun, hl, -, hfound⟩ := h.cancel id
      refine ⟨found, s', c', hrun, ⟨hl.settled, hl.tracked, hl.frame, fun t => ?_⟩, fun t => ?_⟩
      · rw [t.reduce_eq_cancel h.toRepresents hc hk.id hle]
        exact hl.book t
      · rw [t.reduce_eq_cancel h.toRepresents hc hk.id hle]
        exact hfound t
    · have hd : delta < (s.arena e.nodeIdx).qty := by
        rw [UInt64.le_iff_toNat_le] at hle
        rw [UInt64.lt_iff_toNat_lt]
        omega
      have hd' : delta ≤ (s.arena e.nodeIdx).qty := UInt64.le_iff_toNat_le.mpr (UInt64.lt_iff_toNat_lt.mp hd).le
      refine ⟨true, s.debit i e.nodeIdx delta, c, ?_, ⟨⟨h.toRepresents.debit hxm hd', h.bid, h.ask⟩, fun t => t.debit _,
        frame_debit _, fun t => t.bookOf_debit h.toRepresents hc hk.id hd⟩, fun _ => ?_⟩
      · rw [if_neg hle, modifyNode_ok hx, ok_bind, hi, modifyLevel_ok (by exact hlt)]
        rfl
      · exact (decide_eq_true (h.toRepresents.mem_ids_of_find he)).symm

end MatchingEngine
