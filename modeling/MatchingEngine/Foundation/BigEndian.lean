import Mathlib.Data.UInt
import Mathlib.Tactic.Ring

/-!
# Numbers as bytes

A number on the wire is a fixed count of bytes, the most significant first. `writeBack`
fills them in from the last to the first, as a loop over a buffer does, and `readFrom`
shifts them in from the first to the last. Reading what was written gives the number
back, as far as the bytes hold it.
-/

namespace MatchingEngine.Foundation

/-- Puts the `k` lowest bytes of a number in front of what is already written. -/
def writeBack : ℕ → ℕ → List UInt8 → List UInt8
  | 0, _, done => done
  | k + 1, n, done => writeBack k (n / 256) (UInt8.ofNat n :: done)

/-- Shifts bytes into a number. -/
def readFrom (n : ℕ) (bytes : List UInt8) : ℕ := bytes.foldl (fun v b => v * 256 + b.toNat) n

@[simp] theorem length_writeBack (k n : ℕ) (done : List UInt8) : (writeBack k n done).length = k + done.length := by
  induction k generalizing n done with
  | zero => simp [writeBack]
  | succ k ih =>
    rw [writeBack, ih, List.length_cons]
    omega

@[simp] theorem readFrom_cons (n : ℕ) (b : UInt8) (bytes : List UInt8) :
    readFrom n (b :: bytes) = readFrom (n * 256 + b.toNat) bytes := rfl

/-- A number that wraps round while bytes are shifted in ends as if it had wrapped round at the end. -/
theorem readFrom_mod (m n : ℕ) (bytes : List UInt8) : readFrom (n % m) bytes % m = readFrom n bytes % m := by
  induction bytes generalizing n with
  | nil => exact Nat.mod_mod _ _
  | cons b bytes ih =>
    rw [readFrom_cons, readFrom_cons, ← ih (n % m * 256 + b.toNat), ← ih (n * 256 + b.toNat), Nat.add_mod,
      Nat.mod_mul_mod, ← Nat.add_mod]

/-- **Reading over what was written** shifts it in. -/
theorem readFrom_writeBack (v k n : ℕ) (done : List UInt8) :
    readFrom v (writeBack k n done) = readFrom (v * 256 ^ k + n % 256 ^ k) done := by
  induction k generalizing n done with
  | zero => simp [writeBack, Nat.mod_one]
  | succ k ih =>
    have hb : (UInt8.ofNat n).toNat = n % 256 := UInt8.toNat_ofNat'
    have hn : n % (256 * 256 ^ k) = n % 256 + 256 * (n / 256 % 256 ^ k) := Nat.mod_mul
    rw [writeBack, ih, readFrom_cons, hb, pow_succ', hn]
    congr 1
    ring

theorem readFrom_append (n : ℕ) (bytes bytes' : List UInt8) :
    readFrom n (bytes ++ bytes') = readFrom (readFrom n bytes) bytes' := List.foldl_append

/-- **Bytes are written back** as they were read. -/
theorem writeBack_readFrom (n : ℕ) (bytes done : List UInt8) :
    writeBack bytes.length (readFrom n bytes) done = bytes ++ done := by
  induction bytes using List.reverseRecOn generalizing done with
  | nil => rfl
  | append_singleton bytes b ih =>
    have hb : b.toNat < 256 := b.toNat_lt
    have hlast : readFrom n (bytes ++ [b]) = readFrom n bytes * 256 + b.toNat := by
      rw [readFrom_append]
      rfl
    have hdiv : (readFrom n bytes * 256 + b.toNat) / 256 = readFrom n bytes := by omega
    have hmod : UInt8.ofNat (readFrom n bytes * 256 + b.toNat) = b := by
      rw [← UInt8.toNat_inj, UInt8.toNat_ofNat']
      omega
    rw [List.length_append, List.length_singleton, writeBack, hlast, hdiv, hmod, ih, List.append_assoc]
    rfl

/-- What some bytes hold is less than the next power. -/
theorem readFrom_lt (bytes : List UInt8) : readFrom 0 bytes < 256 ^ bytes.length := by
  induction bytes using List.reverseRecOn with
  | nil => simp [readFrom]
  | append_singleton bytes b ih =>
    have hb : b.toNat < 256 := b.toNat_lt
    rw [readFrom_append, List.length_append, List.length_singleton, pow_succ]
    show readFrom 0 bytes * 256 + b.toNat < _
    omega

/-- **A number that fits is read back.** -/
theorem readFrom_writeBack_of_lt {k n : ℕ} (h : n < 256 ^ k) : readFrom 0 (writeBack k n []) = n := by
  rw [readFrom_writeBack, Nat.mod_eq_of_lt h]
  simp [readFrom]

end MatchingEngine.Foundation
