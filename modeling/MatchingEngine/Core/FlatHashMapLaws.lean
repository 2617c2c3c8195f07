import MatchingEngine.Core.FlatHashMap
import Mathlib.Data.Nat.Bitwise
import Mathlib.Tactic.Linarith

/-!
# The flat hash map is a finite map

The invariant of the class (`Raw.WF`): the capacity is a power of two, the table can be
searched by linear probing, `live_` counts the occupied slots, and at most 70% of the
slots are occupied, so that one is always free. Under it every loop of the class ends,
and every operation does to the entries what the operation of a finite map does.

`FlatHashMap` bundles the invariant with the members, so its operations are total and
their laws (`get?_set`, `get?_erase`, `get?_forEachMut`, `get?_reserve`) have no
side conditions.
-/

namespace MatchingEngine

open Foundation

namespace FlatHashMap

namespace Raw

variable {V : Type}

/-! ### Addresses -/

/-- The slot where probing for a key starts in a table of `cap` slots. -/
def home (cap : ℕ) (key : UInt64) : ℕ := hashKey key &&& (cap - 1)

theorem and_mask {cap : ℕ} (h : ∃ k, cap = 2 ^ k) (x : ℕ) : x &&& (cap - 1) = x % cap := by
  obtain ⟨k, rfl⟩ := h
  exact Nat.and_two_pow_sub_one_eq_mod x k

theorem pow_pos {cap : ℕ} (h : ∃ k, cap = 2 ^ k) : 0 < cap := by
  obtain ⟨k, rfl⟩ := h
  exact Nat.two_pow_pos k

theorem home_lt {cap : ℕ} (h : ∃ k, cap = 2 ^ k) (key : UInt64) : home cap key < cap := by
  rw [home, and_mask h]
  exact Nat.mod_lt _ (pow_pos h)

theorem nextIdx_eq {cap : ℕ} (h : ∃ k, cap = 2 ^ k) {i : ℕ} (hi : i < cap) :
    nextIdx (cap - 1) i = cycNext cap i := by
  rw [nextIdx, and_mask h, cycNext]
  split_ifs with hc
  · rw [hc, Nat.mod_self]
  · exact Nat.mod_eq_of_lt (by omega)

/-! ### Counting -/

/-- How many of the first `cap` slots are occupied. -/
def occupied (cap : ℕ) (slots : ℕ → Option (UInt64 × V)) : ℕ :=
  ((Finset.range cap).filter fun i => (slots i).isSome).card

variable {cap : ℕ} {slots : ℕ → Option (UInt64 × V)} {r : ℕ}

theorem occupied_empty (cap : ℕ) : occupied cap (fun _ => (none : Option (UInt64 × V))) = 0 := by
  simp [occupied]

theorem occupied_succ (cap : ℕ) (slots : ℕ → Option (UInt64 × V)) :
    occupied (cap + 1) slots = occupied cap slots + if (slots cap).isSome then 1 else 0 := by
  unfold occupied
  rw [Finset.range_add_one, Finset.filter_insert]
  split_ifs
  · rw [Finset.card_insert_of_notMem (by simp)]
  · rfl

theorem occupied_mono (slots : ℕ → Option (UInt64 × V)) {i j : ℕ} (h : i ≤ j) : occupied i slots ≤ occupied j slots := by
  refine Finset.card_le_card (Finset.filter_subset_filter _ ?_)
  intro x hx
  simp only [Finset.mem_range] at hx ⊢
  omega

/-- The count depends on which slots are occupied only. -/
theorem occupied_congr {slots' : ℕ → Option (UInt64 × V)}
    (h : ∀ i < cap, (slots' i).isSome = (slots i).isSome) : occupied cap slots' = occupied cap slots := by
  unfold occupied
  congr 1
  refine Finset.filter_congr fun i hi => ?_
  rw [h i (Finset.mem_range.mp hi)]

theorem occupied_fill (hr : r < cap) (hf : slots r = none) (e : UInt64 × V) :
    occupied cap (Function.update slots r (some e)) = occupied cap slots + 1 := by
  unfold occupied
  rw [← Finset.card_insert_of_notMem (a := r) (s := (Finset.range cap).filter fun i => (slots i).isSome)
    (by simp [hf])]
  congr 1
  ext i
  by_cases hi : i = r
  · subst hi; simp [hr]
  · simp [hi]

theorem occupied_clear (slots : ℕ → Option (UInt64 × V)) (hr : r < cap) (hf : slots r ≠ none) :
    occupied cap (Function.update slots r none) + 1 = occupied cap slots := by
  obtain ⟨e, he⟩ := Option.ne_none_iff_exists'.mp hf
  rw [← occupied_fill hr (by simp) e, Function.update_idem, ← he, Function.update_eq_self]

/-- If not every slot is occupied, one is free. -/
theorem exists_free (slots : ℕ → Option (UInt64 × V)) (h : occupied cap slots < cap) : ∃ e < cap, slots e = none := by
  by_contra hc
  push Not at hc
  have hall : (Finset.range cap).filter (fun i => (slots i).isSome) = Finset.range cap := by
    refine Finset.filter_true_of_mem fun i hi => ?_
    exact Option.isSome_iff_ne_none.mpr (hc i (Finset.mem_range.mp hi))
  unfold occupied at h
  rw [hall, Finset.card_range] at h
  omega

/-! ### The invariant -/

/-- The entry `(k, v)` is in the table. -/
def Holds (slots : ℕ → Option (UInt64 × V)) (k : UInt64) (v : V) : Prop := ∃ i, slots i = some (k, v)

section Holds

variable {home : UInt64 → ℕ} {key k : UInt64} {v : V}

/-- A search for a key passes every slot with that key but the one where it stops. -/
theorem stops_other (t : Table cap home slots) (hr : StopsAt cap home slots key r) {q : ℕ}
    {e : UInt64 × V} (hq : slots q = some e) (hqr : q ≠ r) : e.1 ≠ key :=
  fun hk => hqr (t.stops_present hr hq hk).symm

/-- Writing a value where the search for its key stops. -/
theorem holds_write (t : Table cap home slots) (hr : StopsAt cap home slots key r) (value : V) :
    Holds (Function.update slots r (some (key, value))) k v ↔
      if k = key then v = value else Holds slots k v := by
  constructor
  · rintro ⟨q, hq⟩
    rw [Function.update_apply] at hq
    split_ifs at hq with hqr
    · cases hq
      rw [if_pos rfl]
    · rw [if_neg (stops_other t hr hq hqr)]
      exact ⟨q, hq⟩
  · intro h
    split_ifs at h with hk
    · exact ⟨r, by rw [Function.update_self, hk, h]⟩
    · obtain ⟨q, hq⟩ := h
      have hqr : q ≠ r := by
        rintro rfl
        exact hk (hr.here _ hq)
      exact ⟨q, by rw [Function.update_of_ne hqr, hq]⟩

/-- Clearing the slot where the search for a key stops. -/
theorem holds_clear (t : Table cap home slots) (hr : StopsAt cap home slots key r) :
    Holds (Function.update slots r none) k v ↔ k ≠ key ∧ Holds slots k v := by
  constructor
  · rintro ⟨q, hq⟩
    rw [Function.update_apply] at hq
    split_ifs at hq with hqr
    exact ⟨stops_other t hr hq hqr, q, hq⟩
  · rintro ⟨hk, q, hq⟩
    have hqr : q ≠ r := by
      rintro rfl
      exact hk (hr.here _ hq)
    exact ⟨q, by rw [Function.update_of_ne hqr, hq]⟩

/-- The key is in the table if the search for it stops at an occupied slot. -/
theorem holds_iff_stops (t : Table cap home slots) (hr : StopsAt cap home slots key r) :
    Holds slots key v ↔ slots r = some (key, v) := by
  constructor
  · rintro ⟨q, hq⟩
    rw [t.stops_present hr hq rfl, hq]
  · exact fun h => ⟨r, h⟩

end Holds

/-- The invariant of the class. -/
structure WF (m : Raw V) : Prop where
  /-- The capacity is a power of two. -/
  pow : ∃ k, m.cap = 2 ^ k
  /-- It never falls below the initial one. -/
  cap_ge : 16 ≤ m.cap
  /-- `mask_` fits the capacity. -/
  mask : m.mask = m.cap - 1
  /-- The table can be searched. -/
  table : Table m.cap (home m.cap) m.slots
  /-- `live_` counts the entries. -/
  live : m.live = occupied m.cap m.slots
  /-- The load factor. -/
  load : 10 * m.live ≤ 7 * m.cap

theorem WF.exists_free {m : Raw V} (w : m.WF) : ∃ e < m.cap, m.slots e = none := by
  refine Raw.exists_free m.slots ?_
  have := w.live
  have := w.load
  have := w.cap_ge
  omega

/-- **Probing ends** where the search for the key stops. -/
theorem WF.probe {m : Raw V} (w : m.WF) (key : UInt64) :
    ∃ r, m.probe key = some r ∧ StopsAt m.cap (home m.cap) m.slots key r := by
  obtain ⟨e, he, hf⟩ := w.exists_free
  obtain ⟨r, hr, hs, hstop, hpass⟩ := seek_spec (nextIdx m.mask)
    (fun idx => (m.slots idx).all fun e => e.1 == key)
    (fun i hi => by rw [w.mask]; exact nextIdx_eq w.pow hi) (home_lt w.pow key) ⟨e, he, by simp [hf]⟩
  refine ⟨r, ?_, hr, ?_, ?_⟩
  · rw [Raw.probe, w.mask]
    rw [w.mask] at hs
    exact hs
  · intro e he
    simpa [he] using hstop
  · intro q hq hb
    have := hpass q hq hb
    cases hsq : m.slots q with
    | none => simp [hsq] at this
    | some e => exact ⟨e, rfl, by simpa [hsq] using this⟩

/-- **`find` ends, and finds the entry of the key.** -/
theorem WF.find {m : Raw V} (w : m.WF) (key : UInt64) :
    ∃ o, m.find key = some o ∧ ∀ v, o = some v ↔ Holds m.slots key v := by
  obtain ⟨r, hp, hr⟩ := w.probe key
  refine ⟨_, by simp only [Raw.find, probeExisting, hp, Option.map_some]; rfl, fun v => ?_⟩
  rw [holds_iff_stops w.table hr]
  cases hs : m.slots r with
  | none => simp
  | some e =>
    obtain ⟨k, v'⟩ := e
    obtain rfl : k = key := hr.here _ hs
    simp [hs]

/-! ### Growing -/

theorem doubleUntil_enough (enough : ℕ → Bool) (fuel cap : ℕ) (h : enough (cap * 2 ^ fuel) = true) :
    enough (doubleUntil enough fuel cap) = true := by
  induction fuel generalizing cap with
  | zero => simpa [doubleUntil] using h
  | succ fuel ih =>
    unfold doubleUntil
    split_ifs with hc
    · exact hc
    · refine ih _ ?_
      rw [Nat.shiftLeft_eq, pow_one, Nat.mul_assoc, ← Nat.pow_succ']
      exact h

theorem doubleUntil_pow (enough : ℕ → Bool) (fuel cap : ℕ) :
    ∃ j, doubleUntil enough fuel cap = cap * 2 ^ j := by
  induction fuel generalizing cap with
  | zero => exact ⟨0, by simp [doubleUntil]⟩
  | succ fuel ih =>
    unfold doubleUntil
    split_ifs with hc
    · exact ⟨0, by simp⟩
    · obtain ⟨j, hj⟩ := ih (cap <<< 1)
      exact ⟨j + 1, by rw [hj, Nat.shiftLeft_eq, pow_one, Nat.mul_assoc, ← Nat.pow_succ']⟩

/-- Probing for a free slot ends where the search for a new key stops. -/
theorem seek_free {newCap : ℕ} (hpow : ∃ k, newCap = 2 ^ k) {t : ℕ → Option (UInt64 × V)} {key : UInt64}
    (hnew : ∀ q e, t q = some e → e.1 ≠ key) (hroom : occupied newCap t < newCap) :
    ∃ r, seek (nextIdx (newCap - 1)) (fun idx => (t idx).isNone) newCap (hashKey key &&& (newCap - 1)) = some r ∧
      t r = none ∧ StopsAt newCap (home newCap) t key r := by
  obtain ⟨f, hf, hff⟩ := Raw.exists_free t hroom
  obtain ⟨r, hr, hseek, hstop, hpass⟩ := seek_spec (nextIdx (newCap - 1)) (fun idx => (t idx).isNone)
    (fun i hi => nextIdx_eq hpow hi) (home_lt hpow key) ⟨f, hf, by simp [hff]⟩
  have hfree : t r = none := by simpa using hstop
  refine ⟨r, hseek, hfree, hr, fun e he => ?_, fun q hq hb => ?_⟩
  · rw [hfree] at he
    cases he
  · have hsome := hpass q hq hb
    simp only [Option.isNone_eq_false_iff, Option.isSome_iff_exists] at hsome
    obtain ⟨e, he⟩ := hsome
    exact ⟨e, he, hnew q e he⟩

/-- The new table, after some slots of the old one, has the entries of those. -/
theorem WF.rehashFrom {m : Raw V} (w : m.WF) {newCap : ℕ} (hpow : ∃ k, newCap = 2 ^ k)
    (hload : m.live < newCap) {i : ℕ} (hi : i ≤ m.cap) :
    ∃ t, m.rehashFrom newCap i = some t ∧ Table newCap (home newCap) t ∧
      occupied newCap t = occupied i m.slots ∧
      ∀ k v, Holds t k v ↔ ∃ j < i, m.slots j = some (k, v) := by
  induction i with
  | zero =>
    refine ⟨_, rfl, table_empty, by rw [occupied_empty]; rfl, fun k v => ?_⟩
    simp [Holds]
  | succ i ih =>
    obtain ⟨t, ht, htab, hocc, hh⟩ := ih (by omega)
    unfold Raw.rehashFrom
    rw [ht, Option.bind_eq_bind, Option.bind_some, occupied_succ]
    cases hs : m.slots i with
    | none =>
      refine ⟨t, rfl, htab, by simp [hocc], fun k v => ?_⟩
      rw [hh k v]
      constructor
      · rintro ⟨j, hj, hjs⟩
        exact ⟨j, by omega, hjs⟩
      · rintro ⟨j, hj, hjs⟩
        refine ⟨j, ?_, hjs⟩
        have : j ≠ i := by rintro rfl; rw [hs] at hjs; cases hjs
        omega
    | some e =>
      -- the old table has the key in this slot only
      have hnew : ∀ q e', t q = some e' → e'.1 ≠ e.1 := by
        rintro q ⟨k, v⟩ hq hk
        obtain ⟨j, hj, hjs⟩ := (hh k v).mp ⟨q, hq⟩
        have := w.table.distinct hjs hs hk
        omega
      have hroom : occupied newCap t < newCap := by
        have := occupied_mono m.slots (show i ≤ m.cap by omega)
        have := w.live
        omega
      obtain ⟨r, hseek, hfree, hst⟩ := seek_free hpow hnew hroom
      simp only [hseek]
      refine ⟨_, rfl, htab.insert hst hfree e.2, ?_, fun k v => ?_⟩
      · rw [occupied_fill hst.lt hfree, hocc]; simp
      · have hw : Holds (Function.update t r (some e)) k v ↔
            if k = e.1 then v = e.2 else Holds t k v := holds_write htab hst e.2
        rw [hw, hh k v]
        constructor
        · intro h
          split_ifs at h with hk
          · exact ⟨i, by omega, by rw [hs, hk, h]⟩
          · obtain ⟨j, hj, hjs⟩ := h
            exact ⟨j, by omega, hjs⟩
        · rintro ⟨j, hj, hjs⟩
          split_ifs with hk
          · have := w.table.distinct hjs hs hk
            rw [this, hs] at hjs
            cases hjs
            rfl
          · refine ⟨j, ?_, hjs⟩
            have : j ≠ i := by rintro rfl; rw [hs] at hjs; cases hjs; exact hk rfl
            omega

/-- **`rehash` keeps the entries.** -/
theorem WF.rehash {m : Raw V} (w : m.WF) (newCap : ℕ) (hpow : ∃ k, newCap = 2 ^ k)
    (hge : m.cap ≤ newCap) :
    ∃ m', m.rehash newCap = some m' ∧ m'.WF ∧ m'.cap = newCap ∧ m'.live = m.live ∧
      ∀ k v, Holds m'.slots k v ↔ Holds m.slots k v := by
  have h16 := w.cap_ge
  have hload := w.load
  obtain ⟨t, ht, htab, hocc, hh⟩ := w.rehashFrom hpow (by omega) le_rfl
  refine ⟨⟨t, newCap, newCap - 1, m.live⟩, by rw [Raw.rehash, ht]; rfl,
    ⟨hpow, h16.trans hge, rfl, htab, w.live.trans hocc.symm, ?_⟩, rfl, rfl, ?_⟩
  · show 10 * m.live ≤ 7 * newCap
    omega
  · intro k v
    rw [hh k v]
    constructor
    · rintro ⟨j, -, hj⟩
      exact ⟨j, hj⟩
    · rintro ⟨j, hj⟩
      exact ⟨j, w.table.lt_cap hj, hj⟩

theorem new_wf (n : ℕ) : (Raw.new n : Raw V).WF := by
  obtain ⟨j, hj⟩ := doubleUntil_pow (fun cap => decide (n ≤ cap)) n 16
  have h1 : 0 < 2 ^ j := Nat.two_pow_pos j
  refine ⟨⟨j + 4, ?_⟩, ?_, rfl, table_empty, by rw [Raw.new, occupied_empty], by simp [Raw.new]⟩
  · simp only [Raw.new, hj]
    rw [Nat.pow_add, Nat.mul_comm]
  · simp only [Raw.new, hj]
    omega

/-- **`reserve` keeps the entries.** -/
theorem WF.reserve {m : Raw V} (w : m.WF) (n : ℕ) :
    ∃ m', m.reserve n = some m' ∧ m'.WF ∧ m'.live = m.live ∧
      ∀ k v, Holds m'.slots k v ↔ Holds m.slots k v := by
  unfold Raw.reserve
  obtain ⟨j, hj⟩ := doubleUntil_pow (fun cap => !overLoaded n cap) n m.cap
  simp only [hj]
  split_ifs with hc
  · obtain ⟨k, hk⟩ := w.pow
    obtain ⟨m', h1, h2, -, h3, h4⟩ := w.rehash (m.cap * 2 ^ j)
      ⟨k + j, by rw [hk, Nat.pow_add]⟩ hc.le
    exact ⟨m', h1, h2, h3, h4⟩
  · exact ⟨m, rfl, w, rfl, fun _ _ => Iff.rfl⟩

theorem WF.maybeGrow {m : Raw V} (w : m.WF) :
    ∃ m', m.maybeGrow = some m' ∧ m'.WF ∧ m'.live = m.live ∧ 10 * (m'.live + 1) ≤ 7 * m'.cap ∧
      ∀ k v, Holds m'.slots k v ↔ Holds m.slots k v := by
  have h16 := w.cap_ge
  have hload := w.load
  unfold Raw.maybeGrow
  split_ifs with hc
  · obtain ⟨k, hk⟩ := w.pow
    obtain ⟨m', h1, h2, h3, h4, h5⟩ := w.rehash (m.cap * 2) ⟨k + 1, by rw [hk, Nat.pow_succ]⟩
      (by omega)
    exact ⟨m', h1, h2, h4, by omega, h5⟩
  · refine ⟨m, rfl, w, rfl, ?_, fun _ _ => Iff.rfl⟩
    simp only [overLoaded, decide_eq_true_eq] at hc
    omega

/-! ### Insertion -/

/-- **`operator[]` and assignment through the reference it returns.** -/
theorem WF.set [Inhabited V] {m : Raw V} (w : m.WF) (key : UInt64) (value : V) :
    ∃ m', m.set key value = some m' ∧ m'.WF ∧
      ((∃ v, Holds m.slots key v) → m'.live = m.live) ∧
      ((∀ v, ¬ Holds m.slots key v) → m'.live = m.live + 1) ∧
      ∀ k v, Holds m'.slots k v ↔ if k = key then v = value else Holds m.slots k v := by
  obtain ⟨m₁, hg, w₁, hlive, hload, hh⟩ := w.maybeGrow
  obtain ⟨r, hp, hr⟩ := w₁.probe key
  simp only [← hh, ← hlive, holds_iff_stops w₁.table hr]
  refine ⟨⟨Function.update m₁.slots r (some (key, value)), m₁.cap, m₁.mask,
    if (m₁.slots r).isSome then m₁.live else m₁.live + 1⟩, ?_, ?_, ?_, ?_,
    fun k v => holds_write w₁.table hr value⟩
  · cases hs : m₁.slots r with
    | none => simp [Raw.set, Raw.index, probeForInsert, hg, hp, hs]
    | some e => simp [Raw.set, Raw.index, probeForInsert, hg, hp, hs, hr.here e hs]
  · cases hs : m₁.slots r with
    | none =>
      refine ⟨w₁.pow, w₁.cap_ge, w₁.mask, w₁.table.insert hr hs value, ?_, hload⟩
      show m₁.live + 1 = occupied m₁.cap _
      rw [w₁.live, occupied_fill hr.lt hs]
    | some e =>
      have htab := w₁.table.assign hs value
      rw [hr.here e hs] at htab
      refine ⟨w₁.pow, w₁.cap_ge, w₁.mask, htab, w₁.live.trans (occupied_congr fun i _ => ?_).symm, w₁.load⟩
      by_cases hi : i = r
      · subst hi; simp [hs]
      · simp [hi]
  · rintro ⟨v, hv⟩
    simp [hv]
  · intro hv
    cases hs : m₁.slots r with
    | none => simp
    | some e => exact absurd (show m₁.slots r = some (key, e.2) by rw [hs, ← hr.here e hs]) (hv e.2)

/-! ### Deletion -/

/-- **The backward-shift loop ends, and keeps the entries.** -/
theorem shiftBack_spec {cap : ℕ} (hpow : ∃ k, cap = 2 ^ k) {f : ℕ} (hf : f < cap) (fuel : ℕ) :
    ∀ {slots : ℕ → Option (UInt64 × V)} {i j : ℕ}, Gap cap (home cap) slots i j → slots f = none → f ≠ i →
      (if j < f then f - j else f + cap - j) ≤ fuel →
      ∃ slots', shiftBack (cap - 1) fuel slots i j = some slots' ∧ Table cap (home cap) slots' ∧
        occupied cap slots' = occupied cap slots ∧ ∀ k v, Holds slots' k v ↔ Holds slots k v := by
  induction fuel with
  | zero =>
    intro slots i j g _ _ hd
    have := g.seen_lt
    split_ifs at hd <;> omega
  | succ fuel ih =>
    intro slots i j g hff hfi hd
    have hj := g.seen_lt
    unfold shiftBack
    simp only [nextIdx_eq hpow hj]
    cases hs : slots (cycNext cap j) with
    | none => exact ⟨slots, rfl, g.done hs, rfl, fun _ _ => Iff.rfl⟩
    | some e =>
      have hne : f ≠ cycNext cap j := by rintro rfl; rw [hff] at hs; cases hs
      have hd' : (if cycNext cap j < f then f - cycNext cap j else f + cap - cycNext cap j) ≤ fuel := by
        unfold cycNext at hne ⊢
        split_ifs at hd hne ⊢ <;> omega
      have hin : (if i ≤ cycNext cap j then
          decide (i < hashKey e.1 &&& (cap - 1)) && decide (hashKey e.1 &&& (cap - 1) ≤ cycNext cap j)
          else decide (i < hashKey e.1 &&& (cap - 1)) || decide (hashKey e.1 &&& (cap - 1) ≤ cycNext cap j)) =
          decide (Past i (home cap e.1) (cycNext cap j)) := by
        unfold Past home
        split_ifs with hij
        · simp [hij, Nat.not_lt.mpr hij]
        · simp [hij, Nat.lt_of_not_le hij]
      simp only [hin, decide_eq_true_eq]
      split_ifs with hk
      · exact ih (g.skip hs hk) hff hfi hd'
      · have hji : cycNext cap j ≠ i := by intro h; rw [h, g.gap] at hs; cases hs
        obtain ⟨slots', h1, h2, h3, h4⟩ := ih (g.move hs hk)
          (by rw [Function.update_of_ne hne, Function.update_of_ne hfi, hff]) hne hd'
        refine ⟨slots', h1, h2, ?_, fun k v => (h4 k v).trans ?_⟩
        · have hfill := occupied_fill g.gap_lt g.gap e
          have hclear := occupied_clear (Function.update slots i (some e)) (cycNext_lt hj)
            (by rw [Function.update_of_ne hji, hs]; simp)
          omega
        · constructor
          · rintro ⟨q, hq⟩
            rw [Function.update_apply, Function.update_apply] at hq
            split_ifs at hq
            · exact ⟨cycNext cap j, by rw [hs]; exact hq⟩
            · exact ⟨q, hq⟩
          · rintro ⟨q, hq⟩
            by_cases hqj : q = cycNext cap j
            · subst hqj
              rw [hs] at hq
              exact ⟨i, by rw [Function.update_of_ne hji.symm, Function.update_self, hq]⟩
            · have hqi : q ≠ i := by rintro rfl; rw [g.gap] at hq; cases hq
              exact ⟨q, by rw [Function.update_of_ne hqj, Function.update_of_ne hqi, hq]⟩

/-- **`erase` removes the entry of the key and no other.** -/
theorem WF.erase {m : Raw V} (w : m.WF) (key : UInt64) :
    ∃ b m', m.erase key = some (b, m') ∧ m'.WF ∧ (b = true ↔ ∃ v, Holds m.slots key v) ∧
      m'.live = (if b then m.live - 1 else m.live) ∧
      ∀ k v, Holds m'.slots k v ↔ k ≠ key ∧ Holds m.slots k v := by
  obtain ⟨r, hp, hr⟩ := w.probe key
  simp only [holds_iff_stops w.table hr]
  cases hs : m.slots r with
  | none =>
    refine ⟨false, m, by simp [Raw.erase, probeExisting, hp, hs], w, by simp, rfl, fun k v => ?_⟩
    refine ⟨fun h => ⟨?_, h⟩, fun h => h.2⟩
    rintro rfl
    rw [holds_iff_stops w.table hr, hs] at h
    cases h
  | some e =>
    have hk := hr.here e hs
    obtain ⟨f, hf, hff⟩ := w.exists_free
    have hfr : f ≠ r := by rintro rfl; rw [hff] at hs; cases hs
    obtain ⟨slots', h1, h2, h3, h4⟩ := shiftBack_spec w.pow hf m.cap (w.table.delete hr.lt)
      (by rw [Function.update_of_ne hfr, hff]) hfr (by split_ifs <;> omega)
    have hocc := occupied_clear m.slots hr.lt (by rw [hs]; simp)
    have hlive := w.live
    have hload := w.load
    refine ⟨true, ⟨slots', m.cap, m.cap - 1, m.live - 1⟩, by simp [Raw.erase, probeExisting, hp, hs, w.mask, h1],
      ⟨w.pow, w.cap_ge, by rfl, h2, ?_, ?_⟩, ?_, rfl, fun k v => (h4 k v).trans (holds_clear w.table hr)⟩
    · show m.live - 1 = occupied m.cap slots'
      omega
    · show 10 * (m.live - 1) ≤ 7 * m.cap
      omega
    · simp only [true_iff]
      exact ⟨e.2, by rw [← hk]⟩

/-- Changing the values keeps the invariant. -/
theorem WF.mapEntries {m : Raw V} (w : m.WF) (fn : UInt64 → V → V) :
    WF { m with slots := fun i => (m.slots i).map fun e => (e.1, fn e.1 e.2) } := by
  refine ⟨w.pow, w.cap_ge, w.mask, w.table.mapEntries fn, ?_, w.load⟩
  exact w.live.trans (occupied_congr fun i _ => by simp).symm

theorem holds_mapEntries {slots : ℕ → Option (UInt64 × V)} (fn : UInt64 → V → V) {k : UInt64} {v : V} :
    Holds (fun i => (slots i).map fun e => (e.1, fn e.1 e.2)) k v ↔ ∃ v₀, Holds slots k v₀ ∧ fn k v₀ = v := by
  constructor
  · rintro ⟨q, hq⟩
    obtain ⟨⟨k₀, v₀⟩, he, heq⟩ := Option.map_eq_some_iff.mp hq
    cases heq
    exact ⟨v₀, ⟨q, he⟩, rfl⟩
  · rintro ⟨v₀, ⟨q, hq⟩, rfl⟩
    exact ⟨q, by simp [hq]⟩

theorem WF.forEachMut {m : Raw V} (w : m.WF) (f : V → V) : (m.forEachMut f).WF := w.mapEntries fun _ => f

end Raw

end FlatHashMap

/-! ### The map -/

/-- A map of the class: its members, with the invariant. -/
structure FlatHashMap (V : Type) where
  /-- The members. -/
  raw : FlatHashMap.Raw V
  /-- The invariant. -/
  wf : raw.WF

namespace FlatHashMap

variable {V : Type}

/-- A new map. -/
def new (initialCapacity : ℕ) : FlatHashMap V := ⟨Raw.new initialCapacity, Raw.new_wf _⟩

theorem reserve_isSome (m : FlatHashMap V) (n : ℕ) : (m.raw.reserve n).isSome := by
  obtain ⟨m', h, -⟩ := m.wf.reserve n
  simp [h]

/-- `reserve`. -/
def reserve (m : FlatHashMap V) (n : ℕ) : FlatHashMap V :=
  ⟨(m.raw.reserve n).get (m.reserve_isSome n), by
    obtain ⟨m', h, w, -⟩ := m.wf.reserve n
    simpa [h] using w⟩

theorem find_isSome (m : FlatHashMap V) (key : UInt64) : (m.raw.find key).isSome := by
  obtain ⟨o, h, -⟩ := m.wf.find key
  simp [h]

/-- `find`. -/
def find (m : FlatHashMap V) (key : UInt64) : Option V := (m.raw.find key).get (m.find_isSome key)

theorem set_isSome [Inhabited V] (m : FlatHashMap V) (key : UInt64) (value : V) :
    (m.raw.set key value).isSome := by
  obtain ⟨m', h, -⟩ := m.wf.set key value
  simp [h]

/-- `(*this)[key] = value`. -/
def set [Inhabited V] (m : FlatHashMap V) (key : UInt64) (value : V) : FlatHashMap V :=
  ⟨(m.raw.set key value).get (m.set_isSome key value), by
    obtain ⟨m', h, w, -⟩ := m.wf.set key value
    simpa [h] using w⟩

theorem erase_isSome (m : FlatHashMap V) (key : UInt64) : (m.raw.erase key).isSome := by
  obtain ⟨b, m', h, -⟩ := m.wf.erase key
  simp [h]

/-- `erase`: whether the key was there, and the map afterwards. -/
def erase (m : FlatHashMap V) (key : UInt64) : Bool × FlatHashMap V :=
  (((m.raw.erase key).get (m.erase_isSome key)).1,
    ⟨((m.raw.erase key).get (m.erase_isSome key)).2, by
      obtain ⟨b, m', h, w, -⟩ := m.wf.erase key
      simpa [h] using w⟩)

/-- `for_each_mut`. -/
def forEachMut (m : FlatHashMap V) (f : V → V) : FlatHashMap V := ⟨m.raw.forEachMut f, m.wf.forEachMut f⟩

/-- `size`. -/
def size (m : FlatHashMap V) : ℕ := m.raw.size

theorem find_eq_some_iff {m : FlatHashMap V} {key : UInt64} {v : V} :
    m.find key = some v ↔ Raw.Holds m.raw.slots key v := by
  obtain ⟨o, h, ho⟩ := m.wf.find key
  simp [find, h, ho]

theorem find_isSome_iff {m : FlatHashMap V} {key : UInt64} :
    (m.find key).isSome ↔ ∃ v, Raw.Holds m.raw.slots key v := by
  simp only [Option.isSome_iff_exists, find_eq_some_iff]

@[simp] theorem find_new (n : ℕ) (key : UInt64) : (new n : FlatHashMap V).find key = none := by
  refine Option.eq_none_iff_forall_ne_some.mpr fun v hv => ?_
  rw [find_eq_some_iff] at hv
  obtain ⟨i, hi⟩ := hv
  cases hi

@[simp] theorem size_new (n : ℕ) : (new n : FlatHashMap V).size = 0 := rfl

@[simp] theorem find_reserve (m : FlatHashMap V) (n : ℕ) (key : UInt64) :
    (m.reserve n).find key = m.find key := by
  obtain ⟨m', h, -, -, hh⟩ := m.wf.reserve n
  refine Option.ext fun v => ?_
  rw [find_eq_some_iff, find_eq_some_iff, ← hh]
  simp [reserve, h]

@[simp] theorem size_reserve (m : FlatHashMap V) (n : ℕ) : (m.reserve n).size = m.size := by
  obtain ⟨m', h, -, hl, -⟩ := m.wf.reserve n
  simpa [reserve, size, Raw.size, h] using hl

/-- **Setting a key changes what is found at that key only.** -/
theorem find_set [Inhabited V] (m : FlatHashMap V) (key : UInt64) (value : V) (k : UInt64) :
    (m.set key value).find k = if k = key then some value else m.find k := by
  obtain ⟨m', h, -, -, -, hh⟩ := m.wf.set key value
  refine Option.ext fun v => ?_
  rw [find_eq_some_iff]
  have hm : (m.set key value).raw = m' := by simp [set, h]
  rw [hm, hh k v]
  split_ifs with hk
  · simp [eq_comm]
  · exact find_eq_some_iff.symm

theorem size_set [Inhabited V] (m : FlatHashMap V) (key : UInt64) (value : V) :
    (m.set key value).size = if (m.find key).isSome then m.size else m.size + 1 := by
  obtain ⟨m', h, -, hsome, hnone, -⟩ := m.wf.set key value
  have hm : (m.set key value).size = m'.live := by simp [set, size, Raw.size, h]
  rw [hm]
  split_ifs with hf
  · exact hsome (find_isSome_iff.mp hf)
  · refine hnone fun v hv => hf (find_isSome_iff.mpr ⟨v, hv⟩)

/-- **Erasing a key removes that key only.** -/
theorem find_erase (m : FlatHashMap V) (key k : UInt64) :
    (m.erase key).2.find k = if k = key then none else m.find k := by
  obtain ⟨b, m', h, -, -, -, hh⟩ := m.wf.erase key
  have hm : (m.erase key).2.raw = m' := by simp [erase, h]
  refine Option.ext fun v => ?_
  rw [find_eq_some_iff, hm, hh k v]
  split_ifs with hk
  · simp [hk]
  · simp [hk, find_eq_some_iff]

theorem erase_fst (m : FlatHashMap V) (key : UInt64) : (m.erase key).1 = (m.find key).isSome := by
  obtain ⟨b, m', h, -, hb, -, -⟩ := m.wf.erase key
  have hm : (m.erase key).1 = b := by simp [erase, h]
  rw [hm, Bool.eq_iff_iff, hb, find_isSome_iff]

theorem size_erase (m : FlatHashMap V) (key : UInt64) :
    (m.erase key).2.size = if (m.find key).isSome then m.size - 1 else m.size := by
  obtain ⟨b, m', h, -, hb, hl, -⟩ := m.wf.erase key
  have hm : (m.erase key).2.size = m'.live := by simp [erase, size, Raw.size, h]
  rw [hm, hl, ← m.erase_fst key]
  simp [erase, h, size, Raw.size]

theorem find_forEachMut (m : FlatHashMap V) (f : V → V) (key : UInt64) :
    (m.forEachMut f).find key = (m.find key).map f := by
  refine Option.ext fun v => ?_
  rw [find_eq_some_iff, Option.map_eq_some_iff]
  simp only [find_eq_some_iff]
  exact Raw.holds_mapEntries fun _ => f

@[simp] theorem size_forEachMut (m : FlatHashMap V) (f : V → V) : (m.forEachMut f).size = m.size := rfl

/-- A map that holds a key is not empty. -/
theorem size_pos_of_find {m : FlatHashMap V} {key : UInt64} (h : (m.find key).isSome) : 0 < m.size := by
  obtain ⟨v, r, hr⟩ := find_isSome_iff.mp h
  have hc := m.wf.table.lt_cap hr
  have := Raw.occupied_clear m.raw.slots hc (by rw [hr]; simp)
  show 0 < m.raw.live
  rw [m.wf.live]
  omega

end FlatHashMap

end MatchingEngine
