import MatchingEngine.Foundation.LinearProbing

/-!
# The flat hash map

`cpp/include/flat_hash_map.h`: open addressing with linear probing and backward-shift
deletion, keys being `uint64_t`. `FlatHashMap.Raw` has the members and the loops of the
class as the code has them; a loop that does not end within the steps given is `none`.
-/

namespace MatchingEngine

open Foundation

namespace FlatHashMap

/-- The members of the class. A slot is `none` when its state is `Empty`. -/
structure Raw (V : Type) where
  /-- `slots_`: what is in each slot of the table. -/
  slots : ℕ → Option (UInt64 × V)
  /-- `slots_.size()`. -/
  cap : ℕ
  /-- `mask_`. -/
  mask : ℕ
  /-- `live_`. -/
  live : ℕ

/-- `while (!enough(cap)) cap <<= 1`, at most so many times. -/
def doubleUntil (enough : ℕ → Bool) : ℕ → ℕ → ℕ
  | 0, cap => cap
  | fuel + 1, cap => if enough cap then cap else doubleUntil enough fuel (cap <<< 1)

namespace Raw

variable {V : Type}

/-- The constructor. -/
def new (initialCapacity : ℕ) : Raw V :=
  let cap := doubleUntil (fun cap => initialCapacity ≤ cap) initialCapacity 16
  { slots := fun _ => none, cap := cap, mask := cap - 1, live := 0 }

/-- `hash_key`: the identity. -/
def hashKey (key : UInt64) : ℕ := key.toNat

/-- The next slot to probe. -/
def nextIdx (mask idx : ℕ) : ℕ := (idx + 1) &&& mask

/-- Where probing for `key` stops: at a free slot, or at the slot with the key. -/
def probe (m : Raw V) (key : UInt64) : Option ℕ :=
  seek (nextIdx m.mask) (fun idx => (m.slots idx).all fun e => e.1 == key) m.cap (hashKey key &&& m.mask)

/-- `probe_for_insert`. -/
def probeForInsert (m : Raw V) (key : UInt64) : Option ℕ := m.probe key

/-- `probe_existing`; the inner `none` is `kNotFound`. -/
def probeExisting (m : Raw V) (key : UInt64) : Option (Option ℕ) :=
  (m.probe key).map fun idx => if (m.slots idx).isSome then some idx else none

/-- The new table of `rehash` after the first so many slots of the old one. -/
def rehashFrom (m : Raw V) (newCap : ℕ) : ℕ → Option (ℕ → Option (UInt64 × V))
  | 0 => some fun _ => none
  | i + 1 => do
    let slots ← m.rehashFrom newCap i
    match m.slots i with
    | none => some slots
    | some e =>
      let idx ← seek (nextIdx (newCap - 1)) (fun idx => (slots idx).isNone) newCap
        (hashKey e.1 &&& (newCap - 1))
      some (Function.update slots idx (some e))

/-- `rehash`. -/
def rehash (m : Raw V) (newCap : ℕ) : Option (Raw V) := do
  let slots ← m.rehashFrom newCap m.cap
  some { slots := slots, cap := newCap, mask := newCap - 1, live := m.live }

/-- `n > cap * kMaxLoad`, with `kMaxLoad = 0.70` taken exactly. -/
def overLoaded (n cap : ℕ) : Bool := 7 * cap < 10 * n

/-- `maybe_grow`. -/
def maybeGrow (m : Raw V) : Option (Raw V) :=
  if overLoaded (m.live + 1) m.cap then m.rehash (m.cap * 2) else some m

/-- `reserve`. -/
def reserve (m : Raw V) (n : ℕ) : Option (Raw V) :=
  let cap := doubleUntil (fun cap => !overLoaded n cap) n m.cap
  if m.cap < cap then m.rehash cap else some m

/-- `operator[]`: the map afterwards, and the slot the reference points into. -/
def index [Inhabited V] (m : Raw V) (key : UInt64) : Option (Raw V × ℕ) := do
  let m ← m.maybeGrow
  let idx ← m.probeForInsert key
  if (m.slots idx).isSome then some (m, idx)
  else some ({ m with slots := Function.update m.slots idx (some (key, default)), live := m.live + 1 }, idx)

/-- `(*this)[key] = value`. -/
def set [Inhabited V] (m : Raw V) (key : UInt64) (value : V) : Option (Raw V) := do
  let (m, idx) ← m.index key
  some { m with slots := Function.update m.slots idx ((m.slots idx).map fun e => (e.1, value)) }

/-- `V& value = (*this)[key]`, and an assignment through the reference: the value it showed, and
the map afterwards. -/
def access [Inhabited V] (m : Raw V) (key : UInt64) (f : V → V) : Option (V × Raw V) := do
  let (m, idx) ← m.index key
  let e ← m.slots idx
  some (e.2, { m with slots := Function.update m.slots idx (some (e.1, f e.2)) })

/-- `find`: the value of the entry, or the inner `none` for `end()`. -/
def find (m : Raw V) (key : UInt64) : Option (Option V) :=
  (m.probeExisting key).map fun idx => idx.bind fun idx => (m.slots idx).map Prod.snd

/-- The loop of `erase`: close the gap at `i`, the slots up to `j` having been seen. -/
def shiftBack (mask : ℕ) : ℕ → (ℕ → Option (UInt64 × V)) → ℕ → ℕ → Option (ℕ → Option (UInt64 × V))
  | 0, _, _, _ => none
  | fuel + 1, slots, i, j =>
    let j := nextIdx mask j
    match slots j with
    | none => some slots
    | some e =>
      let k := hashKey e.1 &&& mask
      let kInRangeIJ := if i ≤ j then decide (i < k) && decide (k ≤ j) else decide (i < k) || decide (k ≤ j)
      if kInRangeIJ then shiftBack mask fuel slots i j
      else shiftBack mask fuel (Function.update (Function.update slots i (some e)) j none) j j

/-- `erase`: whether the key was there, and the map afterwards. -/
def erase (m : Raw V) (key : UInt64) : Option (Bool × Raw V) := do
  match ← m.probeExisting key with
  | none => some (false, m)
  | some i =>
    let slots ← shiftBack m.mask m.cap (Function.update m.slots i none) i i
    some (true, { m with slots := slots, live := m.live - 1 })

/-- `for_each_mut`, with a callback that changes `.second` only. -/
def forEachMut (m : Raw V) (f : V → V) : Raw V :=
  { m with slots := fun i => (m.slots i).map fun e => (e.1, f e.2) }

/-- The loop of `for_each_mut` after the first so many slots: the entries that the callback was
called with, and the slots with what it has written. -/
def forEachFrom (m : Raw V) (fn : UInt64 → V → V) : ℕ → List (UInt64 × V) × (ℕ → Option (UInt64 × V))
  | 0 => ([], m.slots)
  | i + 1 =>
    let (visited, slots) := m.forEachFrom fn i
    match slots i with
    | none => (visited, slots)
    | some e => (visited ++ [e], Function.update slots i (some (e.1, fn e.1 e.2)))

/-- `for_each_mut`, with a callback that is given the whole entry. -/
def forEachEntry (m : Raw V) (fn : UInt64 → V → V) : List (UInt64 × V) × Raw V :=
  let (visited, slots) := m.forEachFrom fn m.cap
  (visited, { m with slots := slots })

/-- `size`. -/
def size (m : Raw V) : ℕ := m.live

end Raw

end FlatHashMap

end MatchingEngine
