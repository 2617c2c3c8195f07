import MatchingEngine.Foundation.PriceTime

/-!
# Levels in an ordered map

A side of a book that is kept as an ordered map from prices to queues, the best price
first. `sideOf` is the side it stands for, where `toOrder` reads an element of a queue as an
order at the price of its level. `Ordered` says that the prices are strictly ordered and
that no queue is empty, as a map keeps them whose owner erases a level that runs empty.
-/

namespace MatchingEngine.Foundation

variable {P I α : Type*}

/-- An ordered map from prices to queues, as its list of entries. -/
abbrev LevelMap (P α : Type*) := List (P × List α)

/-- `map[p].push_back(x)`: a level that does not exist is made. -/
def LevelMap.pushBack (ahead : P → P → Bool) (p : P) (x : α) : LevelMap P α → LevelMap P α
  | [] => [(p, [x])]
  | (q, xs) :: m =>
    if ahead p q then (p, [x]) :: (q, xs) :: m
    else if ahead q p then (q, xs) :: LevelMap.pushBack ahead p x m
    else (q, xs ++ [x]) :: m

/-- The side of a book that a map stands for. -/
def LevelMap.sideOf (toOrder : P → α → Order P I) (m : LevelMap P α) : List (Order P I) :=
  m.flatMap fun l => l.2.map (toOrder l.1)

/-- Best price first, and no level is empty. -/
structure LevelMap.Ordered (ahead : P → P → Bool) (m : LevelMap P α) : Prop where
  /-- The prices are in order. -/
  sorted : m.Pairwise fun a b => ahead a.1 b.1 = true
  /-- Each level has an order. -/
  nonempty : ∀ l ∈ m, l.2 ≠ []

namespace LevelMap

variable {ahead : P → P → Bool} {toOrder : P → α → Order P I} {m : LevelMap P α} {p : P} {xs : List α}

@[simp] theorem sideOf_nil : sideOf toOrder ([] : LevelMap P α) = [] := rfl

@[simp] theorem sideOf_cons (l : P × List α) (m : LevelMap P α) :
    sideOf toOrder (l :: m) = l.2.map (toOrder l.1) ++ sideOf toOrder m := List.flatMap_cons

theorem mem_sideOf {o : Order P I} : o ∈ sideOf toOrder m ↔ ∃ l ∈ m, ∃ x ∈ l.2, toOrder l.1 x = o := by
  simp only [sideOf, List.mem_flatMap, List.mem_map]

theorem ordered_nil : Ordered ahead ([] : LevelMap P α) := ⟨List.Pairwise.nil, by simp⟩

theorem ordered_cons {l : P × List α} :
    Ordered ahead (l :: m) ↔ (∀ l' ∈ m, ahead l.1 l'.1 = true) ∧ l.2 ≠ [] ∧ Ordered ahead m := by
  constructor
  · intro h
    obtain ⟨h1, h2⟩ := List.pairwise_cons.mp h.sorted
    exact ⟨h1, h.nonempty l List.mem_cons_self, h2, fun l' hl' => h.nonempty l' (List.mem_cons_of_mem _ hl')⟩
  · rintro ⟨h1, h2, h3⟩
    refine ⟨List.pairwise_cons.mpr ⟨h1, h3.sorted⟩, fun l' hl' => ?_⟩
    rcases List.mem_cons.mp hl' with rfl | hl'
    · exact h2
    · exact h3.nonempty l' hl'

/-- The best price is that of the first level. -/
theorem Ordered.head_price (hp : ∀ p x, (toOrder p x).price = p) (h : Ordered ahead m) :
    (sideOf toOrder m).head?.map (·.price) = m.head?.map (·.1) := by
  cases m with
  | nil => rfl
  | cons l m =>
    obtain ⟨x, xs, hx⟩ := List.exists_cons_of_ne_nil (ordered_cons.mp h).2.1
    simp [hx, hp]

/-- The prices behind the first level are worse than its price. -/
theorem Ordered.behind (hp : ∀ p x, (toOrder p x).price = p) {l : P × List α} (h : Ordered ahead (l :: m)) :
    ∀ o ∈ sideOf toOrder m, ahead l.1 o.price = true := by
  intro o ho
  obtain ⟨l', hl', x, -, rfl⟩ := mem_sideOf.mp ho
  rw [hp]
  exact (ordered_cons.mp h).1 l' hl'

/-- The order of prices is a strict total one. -/
structure StrictTotal (ahead : P → P → Bool) : Prop where
  /-- No price is ahead of itself. -/
  irrefl : ∀ p, ahead p p = false
  /-- What is ahead is ahead of everything behind. -/
  trans : ∀ {p q r}, ahead p q = true → ahead q r = true → ahead p r = true
  /-- Two prices of which neither is ahead are one. -/
  total : ∀ {p q}, ahead p q = false → ahead q p = false → p = q

theorem StrictTotal.asymm (ha : StrictTotal ahead) {p q : P} (h : ahead p q = true) : ahead q p = false := by
  refine Bool.eq_false_iff.mpr fun hq => ?_
  have := ha.trans h hq
  rw [ha.irrefl] at this
  cases this

theorem mem_pushBack {x : α} {l : P × List α} (hl : l ∈ pushBack ahead p x m) :
    (∃ l' ∈ m, l'.1 = l.1) ∨ l.1 = p := by
  induction m with
  | nil =>
    rw [pushBack, List.mem_singleton] at hl
    exact Or.inr (by rw [hl])
  | cons e m ih =>
    obtain ⟨q, xs⟩ := e
    rw [pushBack] at hl
    split_ifs at hl
    · rcases List.mem_cons.mp hl with rfl | hl
      · exact Or.inr rfl
      · exact Or.inl ⟨l, hl, rfl⟩
    · rcases List.mem_cons.mp hl with rfl | hl
      · exact Or.inl ⟨_, List.mem_cons_self, rfl⟩
      · rcases ih hl with ⟨l', hl', he⟩ | he
        · exact Or.inl ⟨l', List.mem_cons_of_mem _ hl', he⟩
        · exact Or.inr he
    · rcases List.mem_cons.mp hl with rfl | hl
      · exact Or.inl ⟨_, List.mem_cons_self, rfl⟩
      · exact Or.inl ⟨l, List.mem_cons_of_mem _ hl, rfl⟩

/-- **Pushing keeps the map in order**, -/
theorem Ordered.pushBack (ha : StrictTotal ahead) (h : Ordered ahead m) (p : P) (x : α) :
    Ordered ahead (LevelMap.pushBack ahead p x m) := by
  induction m with
  | nil => exact ordered_cons.mpr ⟨by simp, by simp, ordered_nil⟩
  | cons e m ih =>
    obtain ⟨q, xs⟩ := e
    obtain ⟨h1, h2, h3⟩ := ordered_cons.mp h
    rw [LevelMap.pushBack]
    split_ifs with hpq hqp
    · refine ordered_cons.mpr ⟨fun l' hl' => ?_, by simp, h⟩
      rcases List.mem_cons.mp hl' with rfl | hl'
      · exact hpq
      · exact ha.trans hpq (h1 l' hl')
    · refine ordered_cons.mpr ⟨fun l' hl' => ?_, h2, ih h3⟩
      rcases mem_pushBack hl' with ⟨l'', hl'', he⟩ | he
      · rw [← he]
        exact h1 l'' hl''
      · rw [he]
        exact hqp
    · exact ordered_cons.mpr ⟨h1, by simp, h3⟩

/-- **and the order joins its side** behind those at its price. -/
theorem Ordered.sideOf_pushBack (ha : StrictTotal ahead) (hp : ∀ p x, (toOrder p x).price = p) (h : Ordered ahead m)
    (p : P) (x : α) : sideOf toOrder (LevelMap.pushBack ahead p x m) = enqueue ahead (toOrder p x) (sideOf toOrder m) := by
  induction m with
  | nil => rfl
  | cons e m ih =>
    obtain ⟨q, xs⟩ := e
    obtain ⟨h1, h2, h3⟩ := ordered_cons.mp h
    have hbehind := h.behind hp
    have hprice : ∀ o ∈ xs.map (toOrder q), o.price = q := by
      intro o ho
      obtain ⟨y, -, rfl⟩ := List.mem_map.mp ho
      exact hp q y
    rw [LevelMap.pushBack]
    split_ifs with hpq hqp
    · -- a new level in front
      have hall : ∀ o ∈ (sideOf toOrder ((q, xs) :: m)).head?, ahead (toOrder p x).price o.price = true := by
        intro o ho
        rw [hp]
        rw [sideOf_cons] at ho
        rcases List.mem_append.mp (List.mem_of_mem_head? ho) with ho | ho
        · rw [hprice o ho]
          exact hpq
        · exact ha.trans hpq (hbehind o ho)
      have hfirst : enqueue ahead (toOrder p x) ([] ++ sideOf toOrder ((q, xs) :: m)) =
          [] ++ toOrder p x :: sideOf toOrder ((q, xs) :: m) := enqueue_append (by simp) hall
      exact hfirst.symm
    · -- further behind
      rw [sideOf_cons, sideOf_cons, ih h3, enqueue_skip]
      intro o ho
      rw [hp, hprice o ho]
      exact ha.asymm hqp
    · -- at the price of this level
      obtain rfl : p = q := ha.total (Bool.eq_false_iff.mpr hpq) (Bool.eq_false_iff.mpr hqp)
      have hfront : ∀ o ∈ xs.map (toOrder p), ahead (toOrder p x).price o.price = false := by
        intro o ho
        rw [hp, hprice o ho]
        exact ha.irrefl p
      have hrest : ∀ o ∈ (sideOf toOrder m).head?, ahead (toOrder p x).price o.price = true := by
        intro o ho
        rw [hp]
        exact hbehind o (List.mem_of_mem_head? ho)
      rw [sideOf_cons, sideOf_cons]
      dsimp only
      rw [enqueue_append hfront hrest, List.map_append, List.append_assoc]
      rfl

end LevelMap

end MatchingEngine.Foundation
