import MatchingEngine.Core.ContainerLog
import MatchingEngine.Core.FlatHashMapRuns

/-!
# The hot path does not grow its containers

The constructor reserves room in the index and in the free list for as many entries as the arena has
cells. That is enough for both: a cell is free at most once, and an id in the index has a cell of its own
that is not free (`Represents.size_le`). The second holds whatever ids are used, because an id that is added
while it rests takes over the entry it has.

`operator[]` looks at the number of entries before it knows whether the key is a new one. It is called
only after `alloc_node` has handed out a cell, so there is room for one entry more even when the arena
is full afterwards.

Between two calls all this is the representation. Within a call that fills makers or cancels, cells are only
freed, so the free list is longest at the end (`Frees`).
-/

namespace MatchingEngine

open Foundation Function OrderBookV2

/-! ### The capacity of the map -/

namespace FlatHashMap

variable {V : Type} {m m' : Raw V}

theorem Raw.cap_erase {key : UInt64} {present : Bool} (h : m.erase key = some (present, m')) : m'.cap = m.cap := by
  rw [Raw.erase, Option.bind_eq_bind, Option.bind_eq_some_iff] at h
  obtain ⟨idx, -, h⟩ := h
  cases idx with
  | none =>
    cases h
    rfl
  | some i =>
    obtain ⟨slots, -, h⟩ := Option.bind_eq_some_iff.mp h
    cases h
    rfl

/-- The table keeps its size if one entry more is not too many. -/
theorem Raw.cap_set [Inhabited V] {key : UInt64} {value : V} (hroom : overLoaded (m.live + 1) m.cap = false)
    (h : m.set key value = some m') : m'.cap = m.cap := by
  have hgrow : m.maybeGrow = some m := by rw [Raw.maybeGrow, hroom, if_neg (by decide)]
  rw [Raw.set, Option.bind_eq_bind, Option.bind_eq_some_iff] at h
  obtain ⟨⟨m₁, idx⟩, hindex, h⟩ := h
  cases h
  rw [Raw.index, hgrow, Option.bind_eq_bind, Option.bind_some, Option.bind_eq_bind, Option.bind_eq_some_iff] at hindex
  obtain ⟨r, -, hindex⟩ := hindex
  split_ifs at hindex
  · cases hindex
    rfl
  · cases hindex
    rfl

theorem Raw.growth_eq_nil (hroom : overLoaded (m.live + 1) m.cap = false) : m.growth = [] := by
  rw [Raw.growth, hroom, if_neg (by decide)]

theorem cap_erase (m : FlatHashMap V) (key : UInt64) : (m.erase key).2.raw.cap = m.raw.cap :=
  Raw.cap_erase (Option.some_get (m.erase_isSome key)).symm

/-- The table is large enough for `n` entries. -/
def RoomFor (m : FlatHashMap V) (n : ℕ) : Prop := Raw.overLoaded n m.raw.cap = false

theorem RoomFor.mono {m : FlatHashMap V} {n k : ℕ} (h : m.RoomFor n) (hk : k ≤ n) : m.RoomFor k := by
  rw [RoomFor, Raw.overLoaded, decide_eq_false_iff_not] at h ⊢
  omega

/-- `reserve` makes room for so many entries. -/
theorem roomFor_reserve (m : FlatHashMap V) (n : ℕ) : (m.reserve n).RoomFor n :=
  m.wf.reserve_enough n (Option.some_get (m.reserve_isSome n)).symm

theorem cap_set [Inhabited V] {m : FlatHashMap V} (hroom : m.RoomFor (m.size + 1)) (key : UInt64) (value : V) :
    (m.set key value).raw.cap = m.raw.cap :=
  Raw.cap_set hroom (Option.some_get (m.set_isSome key value)).symm

/-- **With room for one entry more, `operator[]` logs nothing.** -/
theorem setL_eq [Inhabited V] {m : FlatHashMap V} (hroom : m.RoomFor (m.size + 1)) (key : UInt64) (value : V) :
    (m.setL key value).run = .ok (m.set key value, []) := by
  have hlog : ((m.raw.setL key value).run.get (Raw.setL_isSome m key value)).2 = [] := by
    obtain ⟨m', hset, -⟩ := m.wf.set key value
    have hrun := m.raw.run_setL key value
    rw [hset, Raw.growth_eq_nil hroom] at hrun
    simp [hrun]
  rw [FlatHashMap.setL, hlog]
  rfl

theorem length_entries (m : FlatHashMap V) : m.raw.entries.length = m.size := by
  rw [Raw.entries, Raw.length_filterMap_range]
  exact m.wf.live.symm

end FlatHashMap

/-! ### The index and the free cells -/

variable {s s' s'' : OrderBookV2} {c : Layout} {es es' : List ContainerEvent}

/-- An entry of the index is the one that is found under its id. -/
theorem find_of_mem_entries {entry : OrderId × IndexEntry} (he : entry ∈ s.index.raw.entries) :
    s.index.find entry.1 = some entry.2 :=
  FlatHashMap.find_eq_some_iff.mpr ((FlatHashMap.Raw.mem_entries (w := s.index.wf)).mp he)

/-- **Two entries of the index are about two cells.** -/
theorem Represents.nodup_indexed (h : Represents s c) : (s.index.raw.entries.map fun e => e.2.nodeIdx).Nodup := by
  refine List.Nodup.map_on (fun a ha b hb he => ?_) s.index.wf.nodup_entries
  have hfa := find_of_mem_entries ha
  have hfb := find_of_mem_entries hb
  have hid : a.1 = b.1 := by rw [← (h.entry hfa).id, ← (h.entry hfb).id, he]
  rw [hid, hfb] at hfa
  exact Prod.ext hid (Option.some.inj hfa).symm

/-- **An id in the index has a cell of its own**, which is not free. -/
theorem Represents.size_le (h : Represents s c) : s.index.size + s.freeList.length ≤ s.arenaBump := by
  have hp := h.partition
  have hcell : ∀ x ∈ s.index.raw.entries.map fun e => e.2.nodeIdx, ∃ i, x ∈ c i := by
    intro x hx
    obtain ⟨e, he, rfl⟩ := List.mem_map.mp hx
    exact ⟨_, (h.entry (find_of_mem_entries he)).mem⟩
  have hnodup : ((s.index.raw.entries.map fun e => e.2.nodeIdx) ++ s.freeList).Nodup := by
    refine List.nodup_append.mpr ⟨h.nodup_indexed, hp.free_nodup, fun x hx y hy he => ?_⟩
    obtain ⟨i, hi⟩ := hcell x hx
    exact hp.free_apart hy (he ▸ hi)
  have hsub : (s.index.raw.entries.map fun e => e.2.nodeIdx) ++ s.freeList ⊆ List.range s.arenaBump := by
    intro x hx
    rw [List.mem_range, hp.lt_iff]
    exact (List.mem_append.mp hx).symm.imp_right (hcell x)
  have hlen := (hnodup.subperm hsub).length_le
  rwa [List.length_append, List.length_map, FlatHashMap.length_entries, List.length_range] at hlen

theorem Represents.freeList_le (h : Represents s c) : s.freeList.length ≤ s.arenaCapacity := by
  have := h.size_le
  have := h.bump_le
  omega

/-- **A claimed cell leaves room for an entry.** -/
theorem Claimed.size_lt {x : ℕ} {fl : List ℕ} {bump : ℕ} (k : Claimed s c x fl bump) (h : Represents s c) :
    s.index.size < s.arenaCapacity := by
  have := h.size_le
  have := k.count
  have := k.bump_le
  omega

/-! ### What a step does to the containers -/

/-- An event that allocates nothing, if the free list has room for `n` entries. -/
def ContainerEvent.Within (n : ℕ) : ContainerEvent → Prop
  | .pushBack size => size ≤ n
  | .rehash _ => False

theorem ContainerEvent.Within.mono {e : ContainerEvent} {m n : ℕ} (h : e.Within m) (hmn : m ≤ n) : e.Within n := by
  cases e with
  | pushBack size => exact Nat.le_trans h hmn
  | rehash newCap => exact h

/-- A step that uses neither container. -/
structure Untouched (s s' : OrderBookV2) : Prop where
  /-- `free_list_`. -/
  freeList : s'.freeList = s.freeList
  /-- `index_`. -/
  index : s'.index = s.index
  /-- `arena_capacity_`. -/
  capacity : s'.arenaCapacity = s.arenaCapacity

/-- **A step that takes no cell**: the free list is longest at its end. -/
structure Frees (s s' : OrderBookV2) (es : List ContainerEvent) : Prop where
  /-- The free list does not become shorter. -/
  freeList : s.freeList.length ≤ s'.freeList.length
  /-- It has never been longer, and the index is not rehashed. -/
  within : ∀ e ∈ es, e.Within s'.freeList.length
  /-- The table of the index keeps its size. -/
  cap : s'.index.raw.cap = s.index.raw.cap
  /-- The arena keeps its size. -/
  capacity : s'.arenaCapacity = s.arenaCapacity

/-- **A step that grows no container.** -/
structure NoGrowth (s s' : OrderBookV2) (es : List ContainerEvent) : Prop where
  /-- The free list stays within the arena, and the index is not rehashed. -/
  within : ∀ e ∈ es, e.Within s.arenaCapacity
  /-- The table of the index keeps its size. -/
  cap : s'.index.raw.cap = s.index.raw.cap
  /-- The arena keeps its size. -/
  capacity : s'.arenaCapacity = s.arenaCapacity

theorem Untouched.refl (s : OrderBookV2) : Untouched s s := ⟨rfl, rfl, rfl⟩

theorem Untouched.trans (h : Untouched s s') (h' : Untouched s' s'') : Untouched s s'' :=
  ⟨h'.freeList.trans h.freeList, h'.index.trans h.index, h'.capacity.trans h.capacity⟩

theorem Untouched.frees (h : Untouched s s') : Frees s s' [] :=
  ⟨by rw [h.freeList], by simp, by rw [h.index], h.capacity⟩

theorem Frees.refl (s : OrderBookV2) : Frees s s [] := (Untouched.refl s).frees

theorem Frees.trans (h : Frees s s' es) (h' : Frees s' s'' es') : Frees s s'' (es ++ es') where
  freeList := h.freeList.trans h'.freeList
  within := List.forall_mem_append.mpr ⟨fun e he => (h.within e he).mono h'.freeList, h'.within⟩
  cap := h'.cap.trans h.cap
  capacity := h'.capacity.trans h.capacity

/-- The free list is within the arena at the end, so it always was. -/
theorem Frees.noGrowth (h : Frees s s' es) (hrep : Represents s' c) : NoGrowth s s' es where
  within e he := (h.within e he).mono (h.capacity ▸ hrep.freeList_le)
  cap := h.cap
  capacity := h.capacity

theorem NoGrowth.trans (h : NoGrowth s s' es) (h' : NoGrowth s' s'' es') : NoGrowth s s'' (es ++ es') where
  within := List.forall_mem_append.mpr ⟨h.within, fun e he => (h'.within e he).mono h.capacity.le⟩
  cap := h'.cap.trans h.cap
  capacity := h'.capacity.trans h.capacity

theorem Untouched.noGrowth (h : Untouched s s') : NoGrowth s s' [] := ⟨by simp, by rw [h.index], h.capacity⟩

/-! ### Steps that use neither container -/

theorem untouched_modifyNode {x : ℕ} {f : Node → Node} (h : s.modifyNode x f = .ok s') : Untouched s s' := by
  obtain ⟨n, -, h⟩ := bind_eq_ok.mp h
  cases h
  exact ⟨rfl, rfl, rfl⟩

theorem untouched_modifyLevel {i : ℤ} {f : PriceLevel → PriceLevel} (h : s.modifyLevel i f = .ok s') : Untouched s s' := by
  obtain ⟨lvl, -, h⟩ := bind_eq_ok.mp h
  cases h
  exact ⟨rfl, rfl, rfl⟩

theorem untouched_advanceAsk (h : s.advanceAsk = .ok s') : Untouched s s' := by
  obtain ⟨i, -, h⟩ := bind_eq_ok.mp h
  cases h
  exact ⟨rfl, rfl, rfl⟩

theorem untouched_advanceBid (h : s.advanceBid = .ok s') : Untouched s s' := by
  obtain ⟨i, -, h⟩ := bind_eq_ok.mp h
  cases h
  exact ⟨rfl, rfl, rfl⟩

theorem untouched_afterUnlink {e : IndexEntry} (h : s.afterUnlink e = .ok s') : Untouched s s' := by
  obtain ⟨lvl, -, h⟩ := bind_eq_ok.mp h
  split_ifs at h
  · exact untouched_advanceBid h
  · exact untouched_advanceAsk h
  · cases h
    exact Untouched.refl s
  · cases h
    exact Untouched.refl s

theorem untouched_noteBest (side : Side) (i : ℤ) : Untouched s (s.noteBest side i) := by
  cases side with
  | buy =>
    rw [noteBest]
    split_ifs <;> exact ⟨rfl, rfl, rfl⟩
  | sell =>
    rw [noteBest]
    split_ifs <;> exact ⟨rfl, rfl, rfl⟩

/-- **The price axis grows without a rehash**: the entries are changed where they are. -/
theorem cap_ensureIndexForPrice {p : ℤ} {idx : Except Exn ℤ} (h : s.ensureIndexForPrice p = .ok (idx, s')) :
    s'.index.raw.cap = s.index.raw.cap := by
  rcases placing_of_ensureIndexForPrice h with ⟨-, -, -, rfl⟩ | ⟨s₁, hopen, hplace⟩
  · rfl
  · have hfirst : s₁.index.raw.cap = s.index.raw.cap := by cases hopen <;> rfl
    cases hplace <;> exact hfirst

/-! ### Steps that free cells -/

/-- **One step after another** that takes no cell. -/
theorem Logs.frees_bind {α β : Type} {book : α → OrderBookV2} {book' : β → OrderBookV2} {x : WithLog α} {y : Except Ub α}
    {f : α → WithLog β} {g : α → Except Ub β} (hx : Logs (fun a => Frees s (book a)) x y)
    (hf : ∀ a, Logs (fun b => Frees (book a) (book' b)) (f a) (g a)) :
    Logs (fun b => Frees s (book' b)) (x >>= f) (y >>= g) :=
  hx.bind fun a _ _ ha => (hf a).mono fun _ _ _ hb => ha.trans hb

/-- A step that uses neither container, and then others that take no cell. -/
theorem Logs.untouched_bind {β : Type} {book' : β → OrderBookV2} {y : Except Ub OrderBookV2}
    {f : OrderBookV2 → WithLog β} {g : OrderBookV2 → Except Ub β} (hy : ∀ s₁, y = .ok s₁ → Untouched s s₁)
    (hf : ∀ s₁, Logs (fun b => Frees s₁ (book' b)) (f s₁) (g s₁)) :
    Logs (fun b => Frees s (book' b)) (liftM y >>= f) (y >>= g) :=
  Logs.frees_bind (Logs.lift fun s₁ h => (hy s₁ h).frees) hf

/-- **`free_node`** makes the free list longer by one. -/
theorem freeNodeL_logs (s : OrderBookV2) (x : ℕ) : Logs (Frees s) (s.freeNodeL x) (.ok (s.freeNode x)) := by
  refine ⟨[.pushBack (s.freeNode x).freeList.length], rfl, ?_, ?_, rfl, rfl⟩
  · exact Nat.le_succ _
  · intro e he
    rw [List.mem_singleton.mp he]
    exact Nat.le_refl _

theorem frees_erase (s : OrderBookV2) (id : OrderId) : Frees s { s with index := (s.index.erase id).2 } [] :=
  ⟨Nat.le_refl _, by simp, s.index.cap_erase id, rfl⟩

theorem dropHeadL_logs (s : OrderBookV2) (i : ℤ) : Logs (Frees s) (s.dropHeadL i) (s.dropHead i) := by
  have hfree : ∀ (s₁ : OrderBookV2) (id : OrderId) (x : ℕ),
      Logs (Frees s₁) (freeNodeL { s₁ with index := (s₁.index.erase id).2 } x)
        (.ok (freeNode { s₁ with index := (s₁.index.erase id).2 } x)) :=
    fun s₁ id x => (freeNodeL_logs _ x).mono fun _ _ _ h => (frees_erase s₁ id).trans h
  rw [dropHeadL, dropHead]
  refine Logs.lift_bind fun lvl _ => ?_
  refine Logs.lift_bind fun maker _ => ?_
  refine Logs.untouched_bind (fun _ => untouched_modifyLevel) fun s₁ => ?_
  refine Logs.ite (fun _ => ?_) fun _ => ?_
  · exact Logs.untouched_bind (fun _ => untouched_modifyNode) fun s₂ => hfree s₂ _ _
  · exact Logs.untouched_bind (fun _ => untouched_modifyLevel) fun s₂ => hfree s₂ _ _

theorem matchLevelL_logs (p i : ℤ) (fuel : ℕ) (s : OrderBookV2) (taker : OrderRequest) (trades : List Trade) :
    Logs (fun r => Frees s r.1) (matchLevelL p i fuel s taker trades) (matchLevel p i fuel s taker trades) := by
  induction fuel generalizing s taker trades with
  | zero => rfl
  | succ fuel ih =>
    rw [matchLevelL, matchLevel]
    refine Logs.lift_bind fun lvl _ => ?_
    refine Logs.ite (fun _ => ?_) fun _ => Logs.pure (Frees.refl s)
    refine Logs.lift_bind fun maker _ => ?_
    refine Logs.untouched_bind (fun _ => untouched_modifyNode) fun s₁ => ?_
    refine Logs.untouched_bind (fun _ => untouched_modifyLevel) fun s₂ => ?_
    refine Logs.ite (fun _ => ?_) fun _ => ?_
    · exact Logs.frees_bind (dropHeadL_logs s₂ i) fun s₃ => ih s₃ _ _
    · exact Logs.frees_bind (Logs.pure (Frees.refl s₂)) fun s₃ => ih s₃ _ _

theorem matchLoopL_logs (fuel : ℕ) (s : OrderBookV2) (taker : OrderRequest) (trades : List Trade) :
    Logs (fun r => Frees s r.1) (matchLoopL fuel s taker trades) (matchLoop fuel s taker trades) := by
  induction fuel generalizing s taker trades with
  | zero => rfl
  | succ fuel ih =>
    rw [matchLoopL, matchLoop]
    refine Logs.ite (fun _ => ?_) fun _ => Logs.pure (Frees.refl s)
    refine Logs.ite (fun _ => Logs.pure (Frees.refl s)) fun _ => ?_
    refine Logs.lift_bind fun levelPrice _ => ?_
    refine Logs.ite (fun _ => Logs.pure (Frees.refl s)) fun _ => ?_
    refine Logs.frees_bind (matchLevelL_logs levelPrice _ _ s taker trades) ?_
    rintro ⟨s₁, taker₁, trades₁⟩
    refine Logs.lift_bind fun lvl _ => ?_
    refine Logs.ite (fun _ => ?_) fun _ => ?_
    · cases taker₁.side with
      | buy => exact Logs.untouched_bind (fun _ => untouched_advanceAsk) fun s₂ => ih s₂ _ _
      | sell => exact Logs.untouched_bind (fun _ => untouched_advanceBid) fun s₂ => ih s₂ _ _
    · exact Logs.frees_bind (Logs.pure (Frees.refl s₁)) fun s₂ => ih s₂ _ _

/-- The end of the first half of `cancel`. -/
theorem freeNodeL_erase_logs (s : OrderBookV2) (id : OrderId) (x : ℕ) :
    Logs (Frees s) (s.freeNodeL x >>= fun s => pure { s with index := (s.index.erase id).2 })
      (.ok { s.freeNode x with index := ((s.freeNode x).index.erase id).2 }) :=
  (freeNodeL_logs s x).map fun s₁ es h => by
    have := h.trans (frees_erase s₁ id)
    rwa [List.append_nil] at this

theorem unlinkNodeL_logs (s : OrderBookV2) (id : OrderId) (e : IndexEntry) :
    Logs (Frees s) (s.unlinkNodeL id e) (s.unlinkNode id e) := by
  rw [unlinkNodeL, unlinkNode]
  refine Logs.lift_bind fun n _ => ?_
  -- the four cases are those of a node with or without a neighbour on either side
  refine Logs.ite (fun _ => Logs.untouched_bind (fun _ => untouched_modifyNode) fun s₁ => ?_)
    fun _ => Logs.untouched_bind (fun _ => untouched_modifyLevel) fun s₁ => ?_
  all_goals
    refine Logs.ite (fun _ => Logs.untouched_bind (fun _ => untouched_modifyNode) fun s₂ => ?_)
      fun _ => Logs.untouched_bind (fun _ => untouched_modifyLevel) fun s₂ => ?_
  all_goals exact Logs.untouched_bind (fun _ => untouched_modifyLevel) fun s₃ => freeNodeL_erase_logs s₃ id _

theorem cancelL_logs (s : OrderBookV2) (id : OrderId) :
    Logs (fun r => Frees s r.2) (s.cancelL id) (s.cancel id) := by
  rw [cancelL, cancel]
  cases s.index.find id with
  | none => exact Logs.pure (Frees.refl s)
  | some e =>
    refine Logs.frees_bind (unlinkNodeL_logs s id e) fun s₁ => ?_
    exact Logs.untouched_bind (fun _ => untouched_afterUnlink) fun s₂ => Logs.pure (Frees.refl s₂)

theorem reduceL_logs (s : OrderBookV2) (id : OrderId) (delta : Quantity) :
    Logs (fun r => Frees s r.2) (s.reduceL id delta) (s.reduce id delta) := by
  rw [reduceL, reduce]
  cases s.index.find id with
  | none => exact Logs.pure (Frees.refl s)
  | some e =>
    refine Logs.lift_bind fun n _ => ?_
    refine Logs.ite (fun _ => cancelL_logs s id) fun _ => ?_
    refine Logs.untouched_bind (fun _ => untouched_modifyNode) fun s₁ => ?_
    exact Logs.untouched_bind (fun _ => untouched_modifyLevel) fun s₂ => Logs.pure (Frees.refl s₂)

/-! ### Resting an order -/

/-- The table of the index has room for as many entries as the arena has cells. -/
def Roomy (s : OrderBookV2) : Prop := s.index.RoomFor s.arenaCapacity

theorem Roomy.step (h : Roomy s) (hs : NoGrowth s s' es) : Roomy s' := by
  rw [Roomy, FlatHashMap.RoomFor, hs.capacity, hs.cap]
  exact h

/-- **`index_[id] = entry` with room for one entry more.** -/
theorem setL_logs {s₁ : OrderBookV2} (hroom : s.index.RoomFor (s.index.size + 1)) (h : Untouched s s₁) (id : OrderId)
    (e : IndexEntry) :
    Logs (NoGrowth s) (s₁.index.setL id e >>= fun index => pure { s₁ with index := index })
      (.ok { s₁ with index := s₁.index.set id e }) := by
  rw [← h.index] at hroom
  refine ⟨[], ?_, by simp, ?_, h.capacity⟩
  · rw [WriterT.run_bind, FlatHashMap.setL_eq hroom]
    rfl
  · rw [← h.index]
    exact FlatHashMap.cap_set hroom id e

theorem linkBackL_logs (s : OrderBookV2) (hroom : s.index.RoomFor (s.index.size + 1))
    (x : ℕ) (i : ℤ) (side : Side) (req : OrderRequest) :
    Logs (NoGrowth s) (s.linkBackL x i side req) (s.linkBack x i side req) := by
  rw [linkBackL, linkBack]
  refine Logs.lift_bind fun s₁ h₁ => ?_
  refine Logs.lift_bind fun lvl _ => ?_
  have h₁ := untouched_modifyNode h₁
  refine Logs.ite (fun _ => ?_) fun _ => ?_
  · refine Logs.lift_bind fun s₂ h₂ => ?_
    have h₂ := h₁.trans (untouched_modifyLevel h₂)
    exact Logs.lift_bind fun s₃ h₃ => setL_logs hroom (h₂.trans (untouched_modifyLevel h₃)) _ _
  · refine Logs.lift_bind fun s₂ h₂ => ?_
    have h₂ := h₁.trans (untouched_modifyNode h₂)
    refine Logs.lift_bind fun s₃ h₃ => ?_
    have h₃ := h₂.trans (untouched_modifyNode h₃)
    refine Logs.lift_bind fun s₄ h₄ => ?_
    have h₄ := h₃.trans (untouched_modifyLevel h₄)
    exact Logs.lift_bind fun s₅ h₅ => setL_logs hroom (h₄.trans (untouched_modifyLevel h₅)) _ _

/-- **`operator[]` runs after `alloc_node`**, so it finds room for one entry more. -/
theorem Represents.pushBackOrderL (h : Represents s c) (hroom : Roomy s) (i : ℤ) (side : Side) (req : OrderRequest) :
    Logs (fun r => NoGrowth s r.2) (s.pushBackOrderL i side req) (s.pushBackOrder i side req) := by
  rw [OrderBookV2.pushBackOrderL, OrderBookV2.pushBackOrder]
  rcases h.allocNode with ⟨x, fl, bump, halloc, k⟩ | ⟨halloc, -, -⟩
  · rw [halloc]
    have hlink := linkBackL_logs { s with freeList := fl, arenaBump := bump } (hroom.mono (k.size_lt h)) x i side req
    exact hlink.map fun s₁ es h₁ => ⟨h₁.within, h₁.cap, h₁.capacity⟩
  · rw [halloc]
    exact Logs.pure (Untouched.refl s).noGrowth

theorem Settled.restL (h : Settled s c) (hroom : Roomy s) (taker : OrderRequest) :
    Logs (fun r => NoGrowth s r.2) (s.restL taker) (s.rest taker) := by
  rw [OrderBookV2.restL, OrderBookV2.rest]
  refine Logs.lift_bind ?_
  rintro ⟨idx, s₁⟩ haxis
  obtain ⟨c₁, hre, -⟩ := (h.ensureIndexForPrice taker.price).elim haxis
  have hgrown : NoGrowth s s₁ [] := ⟨by simp, cap_ensureIndexForPrice haxis, hre.arena.2.2⟩
  cases idx with
  | error e => exact Logs.pure hgrown
  | ok i =>
    refine (hre.settled.pushBackOrderL (hroom.step hgrown) i taker.side taker).bind ?_
    rintro ⟨thrown, s₂⟩ es - hpush
    have hpush := hgrown.trans hpush
    cases thrown with
    | some e => exact Logs.pure (by rw [List.append_nil]; exact hpush)
    | none => exact Logs.pure (hpush.trans (untouched_noteBest taker.side i).noGrowth)

/-! ### A call -/

theorem Settled.matchL (h : Settled s c) (taker : OrderRequest) :
    Logs (fun r es => NoGrowth s r.1 es ∧ ∃ c', Settled r.1 c') (s.matchL taker []) (s.match_ taker []) := by
  obtain ⟨s', taker', ts, c', hrun, hm⟩ := h.match_ taker []
  refine (matchLoopL_logs _ s taker []).mono fun r es hr hfrees => ?_
  have hr : s.match_ taker [] = .ok r := hr
  rw [hrun] at hr
  cases hr
  exact ⟨hfrees.noGrowth hm.settled.toRepresents, c', hm.settled⟩

theorem Settled.cancelL (h : Settled s c) (id : OrderId) :
    Logs (fun r => NoGrowth s r.2) (s.cancelL id) (s.cancel id) := by
  obtain ⟨found, s', c', hrun, hl, -⟩ := h.cancel id
  refine (cancelL_logs s id).mono fun r es hr hfrees => ?_
  rw [hrun] at hr
  cases hr
  exact hfrees.noGrowth hl.settled.toRepresents

theorem Settled.reduceL (h : Settled s c) (id : OrderId) (delta : Quantity) :
    Logs (fun r => NoGrowth s r.2) (s.reduceL id delta) (s.reduce id delta) := by
  obtain ⟨found, s', c', hrun, hl, -⟩ := h.reduce id delta
  refine (reduceL_logs s id delta).mono fun r es hr hfrees => ?_
  rw [hrun] at hr
  cases hr
  exact hfrees.noGrowth hl.settled.toRepresents

/-- An order that has been tested, and is matched if it is not refused; what is left of a limit order rests. -/
theorem Settled.takeL (h : Settled s c) (hroom : Roomy s) (req : OrderRequest) (type : OrderType) (refused : Bool) :
    Logs (fun r : AddResult => NoGrowth s r.book)
      (if refused then pure ⟨s, [], none⟩
      else do
        let (s, taker, trades) ← s.matchL req []
        if type = .limit ∧ 0 < taker.qty then do
          let (thrown, s) ← s.restL taker
          pure ⟨s, trades, thrown⟩
        else pure ⟨s, trades, none⟩)
      (if refused then .ok ⟨s, [], none⟩
      else do
        let (s, taker, trades) ← s.match_ req []
        if type = .limit ∧ 0 < taker.qty then do
          let (thrown, s) ← s.rest taker
          .ok ⟨s, trades, thrown⟩
        else .ok ⟨s, trades, none⟩) := by
  refine Logs.ite (fun _ => Logs.pure (Untouched.refl s).noGrowth) fun _ => ?_
  refine (h.matchL req).bind ?_
  rintro ⟨s₁, taker, trades⟩ es - ⟨hmatch, c₁, h₁⟩
  refine Logs.ite (fun _ => ?_) fun _ => Logs.pure (by rw [List.append_nil]; exact hmatch)
  exact (h₁.restL (hroom.step hmatch) taker).map fun r es' hrest => hmatch.trans hrest

theorem Settled.addL (h : Settled s c) (hroom : Roomy s) (req : OrderRequest) :
    Logs (fun r => NoGrowth s r.book) (s.addL req) (s.add req) := by
  rw [OrderBookV2.addL, OrderBookV2.add]
  cases req.type with
  | cancel =>
    exact (h.cancelL req.id).map fun r es hcancel => hcancel
  | postOnly =>
    refine Logs.lift_bind fun cross _ => ?_
    refine Logs.ite (fun _ => Logs.pure (Untouched.refl s).noGrowth) fun _ => ?_
    exact (h.restL hroom req).map fun r es hrest => hrest
  | limit | market | ioc | fok =>
    have htest : Logs (fun _ es => es = []) (do pure !(← s.canFullyFill req) : WithLog Bool)
        (do .ok !(← s.canFullyFill req)) := Logs.lift_bind fun _ _ => Logs.pure rfl
    have hnone : Logs (fun _ es => es = []) (pure false : WithLog Bool) (.ok false) := Logs.pure rfl
    refine Logs.ite (fun _ => htest.bind ?_) fun _ => hnone.bind ?_
    all_goals
      rintro refused es - rfl
      exact h.takeL hroom req _ refused

/-- **A call** grows no container. -/
theorem Settled.callL (h : Settled s c) (hroom : Roomy s) (op : Call) :
    Logs (fun r => NoGrowth s r.book) (s.callL op) (s.call op) := by
  cases op with
  | add req => exact (h.addL hroom req).map fun r es hadd => hadd
  | cancel id => exact (h.cancelL id).map fun r es hcancel => hcancel
  | reduce id delta => exact (h.reduceL id delta).map fun r es hreduce => hreduce

/-! ### Runs -/

theorem Settled.run (h : Settled s c) {ops : List Call} (hops : ∀ op ∈ ops, op.InRange) :
    Ends (· = .overflow) (s.run ops) fun s' => ∃ c', Settled s' c' := by
  induction ops generalizing s c with
  | nil => exact ⟨c, h⟩
  | cons op ops ih =>
    obtain ⟨hop, hops⟩ := List.forall_mem_cons.mp hops
    refine Ends.bind (h.call_any hop) ?_
    rintro r ⟨c', h'⟩
    exact ih h' hops

/-- **A run** grows no container. -/
theorem Settled.runL (h : Settled s c) (hroom : Roomy s) {ops : List Call} (hops : ∀ op ∈ ops, op.InRange) :
    Logs (NoGrowth s) (s.runL ops) (s.run ops) := by
  induction ops generalizing s c with
  | nil => exact Logs.pure (Untouched.refl s).noGrowth
  | cons op ops ih =>
    obtain ⟨hop, hops⟩ := List.forall_mem_cons.mp hops
    refine (h.callL hroom op).bind fun r es hr hcall => ?_
    obtain ⟨c', h'⟩ := (h.call_any hop).elim hr
    exact (ih h' (hroom.step hcall) hops).mono fun s' es' _ hrest => hcall.trans hrest

theorem roomy_new (capacity : UInt32) (window : ℤ) : Roomy (OrderBookV2.new capacity window) :=
  FlatHashMap.roomFor_reserve _ _

/-- **The hot path never grows its containers.** In a run of any calls on a new book, whatever ids they use and
whether or not they throw, `index_` never executes `rehash`, and `free_list_` never has more entries than the
constructor has reserved room for. The log changes nothing else, and a run fails only if a price overflows. -/
theorem containers_never_grow (capacity : UInt32) (window : ℤ) (ops : List Call) (hops : ∀ op ∈ ops, op.InRange) :
    Ends (· = .overflow) ((OrderBookV2.new capacity window).runL ops).run fun r =>
      (OrderBookV2.new capacity window).run ops = .ok r.1 ∧ (∀ newCap, .rehash newCap ∉ r.2) ∧
        (∀ size, .pushBack size ∈ r.2 → size ≤ capacity.toNat) ∧ r.1.freeList.length ≤ capacity.toNat ∧
        r.1.index.raw.cap = (OrderBookV2.new capacity window).index.raw.cap := by
  have h := settled_new capacity window
  have hlogs := (h.runL (roomy_new capacity window) hops).ends (h.run hops)
  refine hlogs.mono ?_
  rintro ⟨s, es⟩ ⟨hrun, ⟨c, hs⟩, hgrowth⟩
  have hcap : s.arenaCapacity = capacity.toNat := hgrowth.capacity
  refine ⟨hrun, fun newCap he => hgrowth.within _ he, fun size he => hgrowth.within _ he, ?_, hgrowth.cap⟩
  rw [← hcap]
  exact hs.freeList_le

/-- An arena of two cells: an id is used again while it rests, the third order finds no cell and throws, and a market
order fills the first two. Then a cell is claimed and freed once more. -/
theorem containers_never_grow_reused :
    ∃ r, ((OrderBookV2.new 2 10).runL [.add ⟨1, .buy, .limit, 100, 5⟩, .add ⟨1, .buy, .limit, 100, 5⟩,
        .add ⟨2, .buy, .limit, 101, 1⟩, .add ⟨3, .sell, .market, 0, 10⟩, .add ⟨1, .sell, .limit, 90, 4⟩, .cancel 1]).run =
          .ok r ∧
      r.2 = [.pushBack 1, .pushBack 2, .pushBack 2] ∧ (∀ newCap, .rehash newCap ∉ r.2) ∧
      r.1.freeList.length ≤ 2 ∧ r.1.index.raw.cap = 16 := by
  have hrun : ((OrderBookV2.new 2 10).runL [.add ⟨1, .buy, .limit, 100, 5⟩, .add ⟨1, .buy, .limit, 100, 5⟩,
      .add ⟨2, .buy, .limit, 101, 1⟩, .add ⟨3, .sell, .market, 0, 10⟩, .add ⟨1, .sell, .limit, 90, 4⟩,
      .cancel 1]).run.toOption.any (fun r => decide (r.2 = [.pushBack 1, .pushBack 2, .pushBack 2])) = true := by decide
  obtain ⟨r, hr, hlog⟩ := exists_of_toOption_any hrun
  obtain ⟨-, hrehash, -, hfree, hcap⟩ := (containers_never_grow 2 10 _ (by decide)).elim hr
  exact ⟨r, hr, of_decide_eq_true hlog, hrehash, hfree, hcap⟩

end MatchingEngine
