import MatchingEngine.Core.FlatHashMapLaws
import Mathlib.Data.Finmap

/-!
# The flat hash map under any calls

What the class promises its user: whatever calls are made on a new map, every answer is that of
a finite map (`Raw.answers_new`), and every loop ends. A finite map is Mathlib's `Finmap`.
`operator[]` is taken with the assignment through the reference that it returns, and
`for_each_mut` answers with the entries it has called its callback with; a finite map has no
order, so they are compared as a multiset.

Sizes are natural numbers here: the tables that are compared fit in a `size_t`.
-/

namespace MatchingEngine

open Foundation

namespace FlatHashMap

/-! ### Calls -/

/-- A call on a map. -/
inductive MapCall (V : Type) where
  /-- `operator[]`, and then `f` of the value through the reference. -/
  | access (key : UInt64) (f : V → V)
  /-- `find`. -/
  | find (key : UInt64)
  /-- `erase`. -/
  | erase (key : UInt64)
  /-- `reserve`. -/
  | reserve (n : ℕ)
  /-- `for_each_mut`, with a callback that changes `.second` only. -/
  | forEachMut (fn : UInt64 → V → V)
  /-- `size`. -/
  | size

/-- What a call returns. -/
inductive MapAnswer (V : Type) where
  /-- The value that the reference shows. -/
  | value (v : V)
  /-- The value that is found, or `none` for `end()`. -/
  | found (v : Option V)
  /-- Whether the key was present. -/
  | erased (present : Bool)
  /-- Nothing. -/
  | done
  /-- The entries that are visited. -/
  | visited (entries : Multiset (UInt64 × V))
  /-- The number of entries. -/
  | size (n : ℕ)

/-- A finite map with keys of 64 bits. -/
abbrev FiniteMap (V : Type) := Finmap fun _ : UInt64 => V

namespace FiniteMap

variable {V : Type}

/-- The entries, as pairs. -/
def pairs (m : FiniteMap V) : Multiset (UInt64 × V) := m.entries.map fun e => (e.1, e.2)

/-- Every value is changed. -/
def mapValues (m : FiniteMap V) (fn : UInt64 → V → V) : FiniteMap V where
  entries := m.entries.map fun e => ⟨e.1, fn e.1 e.2⟩
  nodupKeys := by
    rw [← Multiset.nodup_keys, Multiset.keys, Multiset.map_map]
    exact Multiset.nodup_keys.mpr m.nodupKeys

theorem lookup_mapValues (m : FiniteMap V) (fn : UInt64 → V → V) (key : UInt64) :
    (m.mapValues fn).lookup key = (m.lookup key).map (fn key) := by
  refine Option.ext fun v => ?_
  rw [Option.map_eq_some_iff, Finmap.lookup_eq_some_iff]
  simp only [Finmap.lookup_eq_some_iff, mapValues, Multiset.mem_map]
  constructor
  · rintro ⟨⟨k, v₀⟩, hm, he⟩
    cases he
    exact ⟨v₀, hm, rfl⟩
  · rintro ⟨v₀, hm, rfl⟩
    exact ⟨⟨key, v₀⟩, hm, rfl⟩

theorem mem_pairs {m : FiniteMap V} {e : UInt64 × V} : e ∈ m.pairs ↔ m.lookup e.1 = some e.2 := by
  rw [pairs, Multiset.mem_map, Finmap.lookup_eq_some_iff]
  constructor
  · rintro ⟨⟨k, v⟩, hm, rfl⟩
    exact hm
  · exact fun hm => ⟨⟨e.1, e.2⟩, hm, rfl⟩

theorem nodup_pairs (m : FiniteMap V) : m.pairs.Nodup := by
  refine Multiset.Nodup.map (fun a b h => ?_) m.nodup_entries
  obtain ⟨a, v⟩ := a
  obtain ⟨b, w⟩ := b
  cases h
  rfl

theorem card_pairs (m : FiniteMap V) : m.pairs.card = m.keys.card := by
  rw [pairs, Multiset.card_map, Finmap.keys, Finset.card_mk, Multiset.keys, Multiset.card_map]

/-- One call. -/
def call [Inhabited V] (m : FiniteMap V) : MapCall V → MapAnswer V × FiniteMap V
  | .access key f => (.value ((m.lookup key).getD default), m.insert key (f ((m.lookup key).getD default)))
  | .find key => (.found (m.lookup key), m)
  | .erase key => (.erased (decide (key ∈ m)), m.erase key)
  | .reserve _ => (.done, m)
  | .forEachMut fn => (.visited m.pairs, m.mapValues fn)
  | .size => (.size m.keys.card, m)

/-- The answers to a sequence of calls. -/
def answers [Inhabited V] (m : FiniteMap V) : List (MapCall V) → List (MapAnswer V)
  | [] => []
  | c :: cs => (m.call c).1 :: (m.call c).2.answers cs

end FiniteMap

namespace Raw

variable {V : Type}

/-- One call on the class. -/
def call [Inhabited V] (m : Raw V) : MapCall V → Option (MapAnswer V × Raw V)
  | .access key f => do
    let (v, m) ← m.access key f
    some (.value v, m)
  | .find key => do
    let found ← m.find key
    some (.found found, m)
  | .erase key => do
    let (present, m) ← m.erase key
    some (.erased present, m)
  | .reserve n => do
    let m ← m.reserve n
    -- the doubling has ended once its guard is false
    if overLoaded n m.cap then none else some (.done, m)
  | .forEachMut fn => some (.visited (m.forEachEntry fn).1, (m.forEachEntry fn).2)
  | .size => some (.size m.size, m)

/-- The answers to a sequence of calls, if every loop ends. -/
def answers [Inhabited V] (m : Raw V) : List (MapCall V) → Option (List (MapAnswer V))
  | [] => some []
  | c :: cs => do
    let (answer, m) ← m.call c
    let rest ← m.answers cs
    some (answer :: rest)

end Raw

/-! ### One call -/

namespace Raw

variable {V : Type} {m : Raw V}

/-- The entries, slot after slot. -/
def entries (m : Raw V) : List (UInt64 × V) := (List.range m.cap).filterMap m.slots

/-- How far `for_each_mut` is after some slots. -/
theorem forEachFrom_eq (m : Raw V) (fn : UInt64 → V → V) (n : ℕ) :
    m.forEachFrom fn n = ((List.range n).filterMap m.slots,
      fun q => if q < n then (m.slots q).map fun e => (e.1, fn e.1 e.2) else m.slots q) := by
  induction n with
  | zero => simp [forEachFrom]
  | succ n ih =>
    rw [forEachFrom, ih, List.range_succ, List.filterMap_append]
    simp only [lt_irrefl, if_false]
    cases hs : m.slots n with
    | none =>
      refine Prod.ext (by simp [hs]) (funext fun q => ?_)
      dsimp only
      by_cases hq : q = n
      · rw [hq, if_neg (lt_irrefl n), if_pos n.lt_succ_self, hs]
        rfl
      · exact if_congr (by omega) rfl rfl
    | some e =>
      refine Prod.ext (by simp [hs]) (funext fun q => ?_)
      dsimp only
      rw [Function.update_apply]
      by_cases hq : q = n
      · rw [if_pos hq, hq, if_pos n.lt_succ_self, hs]
        rfl
      · rw [if_neg hq]
        exact if_congr (by omega) rfl rfl

/-- **`for_each_mut` visits the entries and changes each of them.** -/
theorem WF.forEachEntry (w : m.WF) (fn : UInt64 → V → V) :
    m.forEachEntry fn = (m.entries, { m with slots := fun i => (m.slots i).map fun e => (e.1, fn e.1 e.2) }) := by
  rw [Raw.forEachEntry, forEachFrom_eq]
  refine Prod.ext rfl ?_
  dsimp only
  congr 1
  funext q
  split_ifs with hq
  · rfl
  · rw [w.table.bound q (Nat.le_of_not_lt hq)]
    rfl

theorem mem_entries {w : m.WF} {e : UInt64 × V} : e ∈ m.entries ↔ Holds m.slots e.1 e.2 := by
  rw [entries, List.mem_filterMap]
  constructor
  · rintro ⟨i, -, hi⟩
    exact ⟨i, hi⟩
  · rintro ⟨i, hi⟩
    exact ⟨i, List.mem_range.mpr (w.table.lt_cap hi), hi⟩

theorem WF.nodup_entries (w : m.WF) : m.entries.Nodup := by
  refine List.Nodup.filterMap (fun i j e hi hj => ?_) List.nodup_range
  exact w.table.distinct hi hj rfl

theorem length_filterMap_range (slots : ℕ → Option (UInt64 × V)) (n : ℕ) :
    ((List.range n).filterMap slots).length = occupied n slots := by
  induction n with
  | zero => rfl
  | succ n ih =>
    rw [List.range_succ, List.filterMap_append, List.length_append, ih, occupied_succ]
    cases hs : slots n <;> simp [hs]

/-- The map stands for a finite one. -/
structure StandsFor (m : Raw V) (fm : FiniteMap V) : Prop where
  /-- The invariant of the class. -/
  wf : m.WF
  /-- The entries are those of the finite map. -/
  holds : ∀ k v, Holds m.slots k v ↔ fm.lookup k = some v

variable {fm : FiniteMap V}

theorem StandsFor.pairs (h : m.StandsFor fm) : (m.entries : Multiset (UInt64 × V)) = fm.pairs := by
  refine (Multiset.Nodup.ext (Multiset.coe_nodup.mpr h.wf.nodup_entries) fm.nodup_pairs).mpr fun e => ?_
  rw [Multiset.mem_coe, mem_entries (w := h.wf), h.holds, FiniteMap.mem_pairs]

/-- **`size` counts the keys.** -/
theorem StandsFor.size (h : m.StandsFor fm) : m.size = fm.keys.card := by
  rw [← FiniteMap.card_pairs, ← h.pairs, Multiset.coe_card, entries, length_filterMap_range]
  exact h.wf.live

theorem StandsFor.find (h : m.StandsFor fm) (key : UInt64) : m.find key = some (fm.lookup key) := by
  obtain ⟨o, hfind, ho⟩ := h.wf.find key
  rw [hfind]
  congr 1
  exact Option.ext fun v => (ho v).trans (h.holds key v)

/-- **`operator[]`** shows the value of the key or a default one, and sets what is assigned. -/
theorem WF.access [Inhabited V] (w : m.WF) (key : UInt64) (f : V → V) {v₀ : Option V}
    (hv : ∀ v, Holds m.slots key v ↔ v₀ = some v) :
    m.access key f = (m.set key (f (v₀.getD default))).map fun m' => (v₀.getD default, m') := by
  obtain ⟨m₁, hg, w₁, -, -, hh⟩ := w.maybeGrow
  obtain ⟨r, hp, hr⟩ := w₁.probe key
  cases hs : m₁.slots r with
  | none =>
    have hnone : v₀ = none := by
      refine Option.eq_none_iff_forall_ne_some.mpr fun v hsome => ?_
      have := (hh key v).mpr ((hv v).mpr hsome)
      rw [holds_iff_stops w₁.table hr, hs] at this
      cases this
    simp [Raw.access, Raw.set, Raw.index, probeForInsert, hg, hp, hs, hnone]
  | some e =>
    have hkey := hr.here e hs
    have hsome : v₀ = some e.2 := (hv e.2).mp ((hh key e.2).mp ⟨r, by rw [hs, ← hkey]⟩)
    simp [Raw.access, Raw.set, Raw.index, probeForInsert, hg, hp, hs, hsome]

/-- The doubling of `reserve` ends with a table that is large enough. -/
theorem WF.reserve_enough (w : m.WF) (n : ℕ) {m' : Raw V} (h : m.reserve n = some m') : overLoaded n m'.cap = false := by
  have h16 := w.cap_ge
  have henough := doubleUntil_enough (fun cap => !overLoaded n cap) n m.cap (by
    have := Nat.lt_two_pow_self (n := n)
    have hmul : 16 * 2 ^ n ≤ m.cap * 2 ^ n := Nat.mul_le_mul_right _ h16
    simp only [overLoaded, Bool.not_eq_true', decide_eq_false_iff_not]
    omega)
  rw [Bool.not_eq_true'] at henough
  obtain ⟨j, hj⟩ := doubleUntil_pow (fun cap => !overLoaded n cap) n m.cap
  rw [Raw.reserve] at h
  split_ifs at h with hc
  · rw [Raw.rehash, Option.bind_eq_bind, Option.bind_eq_some_iff] at h
    obtain ⟨slots, -, h⟩ := h
    cases h
    exact henough
  · cases h
    have hle : m.cap ≤ doubleUntil (fun cap => !overLoaded n cap) n m.cap := by
      rw [hj]
      exact Nat.le_mul_of_pos_right _ (Nat.two_pow_pos j)
    rwa [Nat.le_antisymm (Nat.le_of_not_lt hc) hle] at henough

/-- **One call** answers as the finite map does, and every loop ends. -/
theorem StandsFor.call [Inhabited V] (h : m.StandsFor fm) (c : MapCall V) :
    ∃ m', m.call c = some ((fm.call c).1, m') ∧ m'.StandsFor (fm.call c).2 := by
  cases c with
  | access key f =>
    obtain ⟨m', hset, w', -, -, hh⟩ := h.wf.set key (f ((fm.lookup key).getD default))
    refine ⟨m', ?_, w', fun k v => (hh k v).trans ?_⟩
    · rw [Raw.call, h.wf.access key f (h.holds key), hset]
      rfl
    · show _ ↔ (fm.insert key (f ((fm.lookup key).getD default))).lookup k = some v
      by_cases hk : k = key
      · rw [if_pos hk, hk, Finmap.lookup_insert, Option.some.injEq, eq_comm]
      · rw [if_neg hk, Finmap.lookup_insert_of_ne _ hk, h.holds]
  | find key =>
    refine ⟨m, ?_, h⟩
    rw [Raw.call, h.find key]
    rfl
  | erase key =>
    obtain ⟨present, m', herase, w', hpresent, -, hh⟩ := h.wf.erase key
    refine ⟨m', ?_, w', fun k v => (hh k v).trans ?_⟩
    · have heq : present = decide (key ∈ fm) := by
        rw [Bool.eq_iff_iff, hpresent, decide_eq_true_iff, Finmap.mem_iff]
        exact exists_congr fun v => h.holds key v
      rw [Raw.call, herase, heq]
      rfl
    · show _ ↔ (fm.erase key).lookup k = some v
      by_cases hk : k = key
      · rw [hk, Finmap.lookup_erase]
        simp
      · rw [Finmap.lookup_erase_ne hk, h.holds]
        simp [hk]
  | reserve n =>
    obtain ⟨m', hreserve, w', -, hh⟩ := h.wf.reserve n
    refine ⟨m', ?_, w', fun k v => (hh k v).trans (h.holds k v)⟩
    rw [Raw.call, hreserve, Option.bind_eq_bind, Option.bind_some, h.wf.reserve_enough n hreserve]
    rfl
  | forEachMut fn =>
    refine ⟨(m.forEachEntry fn).2, ?_, ?_⟩
    · rw [Raw.call, h.wf.forEachEntry fn, h.pairs]
      rfl
    · rw [h.wf.forEachEntry fn]
      refine ⟨h.wf.mapEntries fn, fun k v => (holds_mapEntries fn).trans ?_⟩
      show _ ↔ (fm.mapValues fn).lookup k = some v
      rw [FiniteMap.lookup_mapValues, Option.map_eq_some_iff]
      exact exists_congr fun v₀ => and_congr (h.holds k v₀) Iff.rfl
  | size =>
    refine ⟨m, ?_, h⟩
    rw [Raw.call, h.size]
    rfl

/-! ### Runs -/

theorem StandsFor.answers [Inhabited V] (h : m.StandsFor fm) (cs : List (MapCall V)) :
    m.answers cs = some (fm.answers cs) := by
  induction cs generalizing m fm with
  | nil => rfl
  | cons c cs ih =>
    obtain ⟨m', hcall, h'⟩ := h.call c
    rw [Raw.answers, hcall, Option.bind_eq_bind, Option.bind_some]
    dsimp only
    rw [ih h', Option.bind_eq_bind, Option.bind_some, FiniteMap.answers]

theorem standsFor_new (n : ℕ) : (Raw.new n : Raw V).StandsFor ∅ where
  wf := new_wf n
  holds k v := by
    rw [Finmap.lookup_empty]
    refine iff_of_false ?_ (by simp)
    rintro ⟨i, hi⟩
    cases hi

/-- **The flat hash map is a finite map**: whatever calls are made on a new one, every loop ends, the doubling
in the constructor with a table that is large enough, and every answer is that of a finite map. -/
theorem answers_new [Inhabited V] (initialCapacity : ℕ) (cs : List (MapCall V)) :
    initialCapacity ≤ (Raw.new initialCapacity : Raw V).cap ∧
      (Raw.new initialCapacity : Raw V).answers cs = some (FiniteMap.answers ∅ cs) := by
  refine ⟨?_, (standsFor_new initialCapacity).answers cs⟩
  have := doubleUntil_enough (fun cap => decide (initialCapacity ≤ cap)) initialCapacity 16 (by
    have := Nat.lt_two_pow_self (n := initialCapacity)
    exact decide_eq_true (by omega))
  exact of_decide_eq_true this

end Raw

end FlatHashMap

end MatchingEngine
