import Mathlib.Data.Finset.Card
import Mathlib.Logic.Function.Basic
import Mathlib.Tactic.SplitIfs

/-!
# Linear probing

A table of `cap` slots, addressed cyclically. An entry with key `k` belongs at its
*home* slot `home k`, and is stored at the first free slot from there on. What makes
lookups right is that no free slot lies between an entry's home and the slot that
holds it (`Table.reach`). This module has the invariant, the search loop
(`seek`), and the loop that closes the gap left by a deletion by moving later
entries back (`Gap`), as facts about slots only: the hash function, the load factor
and the way the cyclic successor is computed are the user's.

Cyclic intervals are written with `≤` and `<` only, so that the arithmetic is linear.
-/

namespace MatchingEngine.Foundation

/-- The slot `q` lies on the way from `a` to `b`, `a` included and `b` excluded. -/
def Between (a q b : ℕ) : Prop := (a ≤ q ∧ q < b) ∨ (b < a ∧ (a ≤ q ∨ q < b))

/-- The slot `q` lies on the way from `a` to `b`, `a` excluded and `b` included. -/
def Past (a q b : ℕ) : Prop := (a ≤ b ∧ a < q ∧ q ≤ b) ∨ (b < a ∧ (a < q ∨ q ≤ b))

instance (a q b : ℕ) : Decidable (Past a q b) := inferInstanceAs (Decidable (_ ∨ _))

/-- The next slot, cyclically. -/
def cycNext (cap i : ℕ) : ℕ := if i + 1 = cap then 0 else i + 1

theorem cycNext_lt {cap i : ℕ} (h : i < cap) : cycNext cap i < cap := by
  unfold cycNext
  split_ifs <;> omega

/-- Where a search from slot `i` stops, looking at no more than so many slots. -/
def seek (next : ℕ → ℕ) (stop : ℕ → Bool) : ℕ → ℕ → Option ℕ
  | 0, _ => none
  | fuel + 1, i => if stop i then some i else seek next stop fuel (next i)

/-- **A search that can stop does**, within one turn round the table, and at the
first slot where it can. -/
theorem seek_spec {cap : ℕ} (next : ℕ → ℕ) (stop : ℕ → Bool) {h : ℕ}
    (hnext : ∀ i < cap, next i = cycNext cap i) (hh : h < cap) (hs : ∃ e < cap, stop e = true) :
    ∃ r < cap, seek next stop cap h = some r ∧ stop r = true ∧
      ∀ q < cap, Between h q r → stop q = false := by
  obtain ⟨e, he, hse⟩ := hs
  -- the slots from `h` to the current one have been passed, so `e` is still ahead
  suffices key : ∀ fuel i, i < cap → (∀ q < cap, Between h q i → stop q = false) →
      cap ≤ fuel + (if h ≤ i then i - h else i + cap - h) →
      ∃ r < cap, seek next stop fuel i = some r ∧ stop r = true ∧
        ∀ q < cap, Between h q r → stop q = false by
    refine key cap h hh (fun q _ hq => ?_) (by omega)
    unfold Between at hq
    omega
  intro fuel
  induction fuel with
  | zero =>
    intro i hi _ hf
    split_ifs at hf <;> omega
  | succ fuel ih =>
    intro i hi hpass hf
    unfold seek
    cases hsi : stop i with
    | true => exact ⟨i, hi, by simp, hsi, hpass⟩
    | false =>
      have hei : e ≠ i := by rintro rfl; simp [hsi] at hse
      have hnb : ¬ Between h e i := fun hb => by simp [hpass e he hb] at hse
      simp only [Bool.false_eq_true, if_false, hnext i hi]
      refine ih (cycNext cap i) (cycNext_lt hi) (fun q hq hb => ?_) ?_
      · by_cases hqi : q = i
        · rw [hqi, hsi]
        · refine hpass q hq ?_
          unfold Between cycNext at *
          split_ifs at hb <;> omega
      · unfold Between at hnb
        unfold cycNext
        split_ifs at hf ⊢ <;> omega

variable {K V : Type*} {cap : ℕ} {home : K → ℕ} {slots : ℕ → Option (K × V)}

/-- **A table that linear probing can search**: keys are distinct, and no free slot
lies between an entry and its home. -/
structure Table (cap : ℕ) (home : K → ℕ) (slots : ℕ → Option (K × V)) : Prop where
  /-- Slots past the end are not used. -/
  bound : ∀ i, cap ≤ i → slots i = none
  /-- Each key is in one slot only. -/
  distinct : ∀ {i j e e'}, slots i = some e → slots j = some e' → e.1 = e'.1 → i = j
  /-- The slots from an entry's home to the entry are taken. -/
  reach : ∀ {i e}, slots i = some e → ∀ q < cap, Between (home e.1) q i → slots q ≠ none

/-- The slot `r` is where a search for key `k` stops: it is free or holds `k`, and the
slots passed hold other keys. -/
structure StopsAt (cap : ℕ) (home : K → ℕ) (slots : ℕ → Option (K × V)) (k : K) (r : ℕ) : Prop where
  lt : r < cap
  here : ∀ e, slots r = some e → e.1 = k
  passed : ∀ q < cap, Between (home k) q r → ∃ e, slots q = some e ∧ e.1 ≠ k

theorem Table.lt_cap (t : Table cap home slots) {i : ℕ} {e : K × V} (h : slots i = some e) : i < cap := by
  by_contra hc
  rw [t.bound i (by omega)] at h
  cases h

/-- A search for a key that is in the table stops where it is. -/
theorem Table.stops_present (t : Table cap home slots) {k : K} {r i : ℕ} {e : K × V}
    (hr : StopsAt cap home slots k r) (hi : slots i = some e) (hk : e.1 = k) : r = i := by
  by_contra hne
  by_cases hb : Between (home k) i r
  · obtain ⟨e', he', hne'⟩ := hr.passed i (t.lt_cap hi) hb
    rw [hi] at he'
    cases he'
    exact hne' hk
  · -- the search stopped before reaching the entry, so on a slot that is taken
    have hb' : Between (home e.1) r i := by
      rw [hk]
      unfold Between at hb ⊢
      omega
    obtain ⟨e', he'⟩ := Option.ne_none_iff_exists'.mp (t.reach hi r hr.lt hb')
    exact hne (t.distinct he' hi ((hr.here e' he').trans hk.symm))

theorem table_empty : Table cap home (fun _ => (none : Option (K × V))) :=
  ⟨fun _ _ => rfl, fun h => by simp at h, fun h => by simp at h⟩

/-- **Insertion** of a new key where the search for it stops. -/
theorem Table.insert (t : Table cap home slots) {k : K} {r : ℕ} (hr : StopsAt cap home slots k r)
    (hf : slots r = none) (v : V) : Table cap home (Function.update slots r (some (k, v))) := by
  -- the search passed every entry with this key, so there is none
  have hk : ∀ i e, slots i = some e → e.1 ≠ k := by
    rintro i e hi rfl
    rw [t.stops_present hr hi rfl, hi] at hf
    cases hf
  refine ⟨fun i hi => ?_, fun {i j e e'} hi hj he => ?_, fun {i e} hi q hq hb => ?_⟩
  · rw [Function.update_of_ne (by have := hr.lt; omega), t.bound i hi]
  · rw [Function.update_apply] at hi hj
    split_ifs at hi hj with h1 h2 h2
    · rw [h1, h2]
    · cases hi
      exact absurd he.symm (hk j e' hj)
    · cases hj
      exact absurd he (hk i e hi)
    · exact t.distinct hi hj he
  · by_cases hqr : q = r
    · simp [hqr]
    rw [Function.update_of_ne hqr]
    rw [Function.update_apply] at hi
    split_ifs at hi with h1
    · cases hi
      obtain ⟨e', he', -⟩ := hr.passed q hq (h1 ▸ hb)
      simp [he']
    · exact t.reach hi q hq hb

/-- **Assignment** to the value of a stored key. -/
theorem Table.assign (t : Table cap home slots) {r : ℕ} {e : K × V} (he : slots r = some e) (v : V) :
    Table cap home (Function.update slots r (some (e.1, v))) := by
  have hkey : ∀ {i e'}, Function.update slots r (some (e.1, v)) i = some e' →
      ∃ e₀, slots i = some e₀ ∧ e₀.1 = e'.1 := by
    intro i e' hi
    rw [Function.update_apply] at hi
    split_ifs at hi with h1
    · cases hi
      exact ⟨e, h1 ▸ he, rfl⟩
    · exact ⟨e', hi, rfl⟩
  refine ⟨fun i hi => ?_, fun {i j a b} hi hj hab => ?_, fun {i a} hi q hq hb => ?_⟩
  · rw [Function.update_of_ne (by have := t.lt_cap he; omega), t.bound i hi]
  · obtain ⟨a₀, ha, ha'⟩ := hkey hi
    obtain ⟨b₀, hb, hb'⟩ := hkey hj
    exact t.distinct ha hb (by rw [ha', hb', hab])
  · obtain ⟨a₀, ha, ha'⟩ := hkey hi
    rw [Function.update_apply]
    split_ifs with h1
    · simp
    · exact t.reach ha q hq (ha' ▸ hb)

/-- Changing the stored values, and no key, keeps the table. -/
theorem Table.mapEntries (t : Table cap home slots) (f : K → V → V) :
    Table cap home (fun i => (slots i).map fun e => (e.1, f e.1 e.2)) := by
  refine ⟨fun i hi => by simp [t.bound i hi], fun {i j e e'} hi hj he => ?_, fun {i e} hi q hq hb => ?_⟩
  · simp only [Option.map_eq_some_iff] at hi hj
    obtain ⟨a, ha, rfl⟩ := hi
    obtain ⟨b, hb, rfl⟩ := hj
    exact t.distinct ha hb he
  · simp only [Option.map_eq_some_iff] at hi
    obtain ⟨a, ha, rfl⟩ := hi
    simpa using t.reach ha q hq hb

/-! ### Deletion -/

/-- **A table with a gap** at slot `i`, when the slots after it up to `j` have been
examined: those are taken and do not need the gap filled, and the gap is the only free
slot that may lie between an entry and its home. -/
structure Gap (cap : ℕ) (home : K → ℕ) (slots : ℕ → Option (K × V)) (i j : ℕ) : Prop where
  gap_lt : i < cap
  seen_lt : j < cap
  gap : slots i = none
  bound : ∀ p, cap ≤ p → slots p = none
  distinct : ∀ {p q e e'}, slots p = some e → slots q = some e' → e.1 = e'.1 → p = q
  run : ∀ q < cap, Past i q j → slots q ≠ none
  seen : ∀ {q e}, slots q = some e → Past i q j → Past i (home e.1) q
  reach : ∀ {q e}, slots q = some e → ∀ r < cap, Between (home e.1) r q → r ≠ i → slots r ≠ none

/-- Deleting the entry of slot `i` leaves a gap there. -/
theorem Table.delete (t : Table cap home slots) {i : ℕ} (hi : i < cap) :
    Gap cap home (Function.update slots i none) i i where
  gap_lt := hi
  seen_lt := hi
  gap := by simp
  bound := fun p hp => by rw [Function.update_of_ne (by omega), t.bound p hp]
  distinct := by
    intro p q e e' hp hq he
    rw [Function.update_apply] at hp hq
    split_ifs at hp hq
    exact t.distinct hp hq he
  run := fun q _ hq => by unfold Past at hq; omega
  seen := fun _ hq => by unfold Past at hq; omega
  reach := by
    intro q e hq r hr hb hne
    rw [Function.update_apply] at hq
    split_ifs at hq
    rw [Function.update_of_ne hne]
    exact t.reach hq r hr hb

variable {i j : ℕ} {e : K × V}

/-- The entry after the ones examined stays where it is. -/
theorem Gap.skip (g : Gap cap home slots i j) (he : slots (cycNext cap j) = some e)
    (hk : Past i (home e.1) (cycNext cap j)) : Gap cap home slots i (cycNext cap j) where
  gap_lt := g.gap_lt
  seen_lt := cycNext_lt g.seen_lt
  gap := g.gap
  bound := g.bound
  distinct := g.distinct
  run := by
    intro q hq hp
    by_cases hqj : q = cycNext cap j
    · rw [hqj, he]; simp
    · refine g.run q hq ?_
      have := g.seen_lt
      unfold Past cycNext at *
      split_ifs at * <;> omega
  seen := by
    intro q e' hq hp
    by_cases hqj : q = cycNext cap j
    · subst hqj
      rw [he] at hq
      cases hq
      exact hk
    · refine g.seen hq ?_
      have := g.seen_lt
      have hqc : q < cap := by
        by_contra hc
        rw [g.bound q (by omega)] at hq
        cases hq
      unfold Past cycNext at *
      split_ifs at * <;> omega
  reach := g.reach

/-- The entry after the ones examined moves back into the gap, and leaves one. -/
theorem Gap.move (g : Gap cap home slots i j) (he : slots (cycNext cap j) = some e)
    (hk : ¬ Past i (home e.1) (cycNext cap j)) :
    Gap cap home (Function.update (Function.update slots i (some e)) (cycNext cap j) none)
      (cycNext cap j) (cycNext cap j) := by
  have hne : cycNext cap j ≠ i := by
    intro h
    rw [h, g.gap] at he
    cases he
  have hlt := cycNext_lt g.seen_lt
  have hi := g.gap_lt
  generalize cycNext cap j = j' at *
  have hval : ∀ q, Function.update (Function.update slots i (some e)) j' none q =
      if q = j' then none else if q = i then some e else slots q := by
    intro q
    rw [Function.update_apply, Function.update_apply]
  refine ⟨hlt, hlt, by simp, fun p hp => ?_, fun {p q a b} hp hq hab => ?_, fun q _ hq => ?_,
    fun _ hq => ?_, fun {q a} hq r hr hb hrj => ?_⟩
  · rw [hval, if_neg (by omega), if_neg (by omega), g.bound p hp]
  · rw [hval] at hp hq
    split_ifs at hp hq with h1 h2 h3 h4 h5 h6
    · rw [h2, h4]
    · cases hp
      exact absurd (g.distinct he hq hab) (fun h => h3 h.symm)
    · cases hq
      exact absurd (g.distinct hp he hab) h1
    · exact g.distinct hp hq hab
  · unfold Past at hq; omega
  · unfold Past at hq; omega
  · rw [hval, if_neg hrj]
    by_cases hri : r = i
    · simp [hri]
    rw [if_neg hri]
    rw [hval] at hq
    split_ifs at hq with h1 h2
    · -- the entry that moved: its home is not between the old gap and the new one
      cases hq
      refine g.reach he r hr ?_ hri
      unfold Between Past at *
      omega
    · exact g.reach hq r hr hb hri

/-- **When the slot after the ones examined is free, the table is searchable again.** -/
theorem Gap.done (g : Gap cap home slots i j) (hf : slots (cycNext cap j) = none) :
    Table cap home slots := by
  refine ⟨g.bound, g.distinct, fun {q e} hq r hr hb => ?_⟩
  by_cases hri : r = i
  · subst hri
    have hqc : q < cap := by
      by_contra hc
      rw [g.bound q (by omega)] at hq
      cases hq
    have hqr : q ≠ r := by
      rintro rfl
      rw [g.gap] at hq
      cases hq
    have hqj : q ≠ cycNext cap j := by
      rintro rfl
      rw [hf] at hq
      cases hq
    have hj := g.seen_lt
    exfalso
    by_cases hp : Past r q j
    · have := g.seen hq hp
      unfold Past Between at *
      omega
    · -- the way from the gap to the entry passes the free slot
      refine g.reach hq (cycNext cap j) (cycNext_lt hj) ?_ ?_ hf
      · unfold Past Between cycNext at *
        split_ifs at * <;> omega
      · intro h
        unfold Past cycNext at *
        split_ifs at * <;> omega
  · exact g.reach hq r hr hb hri

end MatchingEngine.Foundation
