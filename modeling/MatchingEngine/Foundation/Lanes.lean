import MatchingEngine.Foundation.BigEndian
import Mathlib.Data.List.OfFn
import Mathlib.Logic.Equiv.Fin.Basic

/-!
# Lanes of a vector register

A register of a vector unit is a row of bytes that an instruction sees as lanes of a width. A
lane holds a number whose least significant byte comes first. Reversing the bytes in every lane
makes of a lane that was filled with a number off the wire, most significant byte first, the
number itself (`littleEndian_lane_reverseLanes`).
-/

namespace MatchingEngine.Foundation

/-! ### Numbers, least significant byte first -/

/-- The number in some bytes. -/
def littleEndian (bytes : List UInt8) : ℕ := bytes.foldr (fun b n => n * 256 + b.toNat) 0

/-- A byte of a number. -/
def leByte (n k : ℕ) : UInt8 := UInt8.ofNat (n / 256 ^ k)

@[simp] theorem littleEndian_cons (b : UInt8) (bytes : List UInt8) :
    littleEndian (b :: bytes) = littleEndian bytes * 256 + b.toNat := rfl

theorem littleEndian_reverse (bytes : List UInt8) : littleEndian bytes.reverse = readFrom 0 bytes := List.foldr_reverse

theorem littleEndian_lt (bytes : List UInt8) : littleEndian bytes < 256 ^ bytes.length := by
  have hlt := readFrom_lt bytes.reverse
  rwa [← littleEndian_reverse, List.length_reverse, List.reverse_reverse] at hlt

/-- **The bytes of a number are those it was read from.** -/
theorem leByte_littleEndian (bytes : List UInt8) {k : ℕ} (h : k < bytes.length) :
    leByte (littleEndian bytes) k = bytes[k] := by
  induction bytes generalizing k with
  | nil => simp at h
  | cons b bytes ih =>
    have hb : b.toNat < 256 := b.toNat_lt
    cases k with
    | zero =>
      rw [leByte, pow_zero, Nat.div_one, littleEndian_cons, ← UInt8.toNat_inj, UInt8.toNat_ofNat']
      show _ % 256 = b.toNat
      omega
    | succ k =>
      have hshift : (littleEndian bytes * 256 + b.toNat) / 256 = littleEndian bytes := by omega
      rw [leByte, littleEndian_cons, pow_succ', ← Nat.div_div_eq_div_mul, hshift]
      exact ih (Nat.lt_of_succ_lt_succ h)

/-! ### Registers -/

/-- A register, seen as lanes of a width. -/
abbrev Register (lanes width : ℕ) := Vector UInt8 (lanes * width)

namespace Register

variable {lanes width : ℕ}

/-- A byte of a lane. -/
def byteAt (v : Register lanes width) (j : Fin lanes) (k : Fin width) : UInt8 := v[finProdFinEquiv (j, k)]

/-- The bytes of a lane, in the order of the register. -/
def lane (v : Register lanes width) (j : Fin lanes) : List UInt8 := List.ofFn (v.byteAt j)

/-- The register with some bytes. -/
def ofBytes (f : Fin lanes → Fin width → UInt8) : Register lanes width :=
  Vector.ofFn fun i => f (finProdFinEquiv.symm i).1 (finProdFinEquiv.symm i).2

/-- Reverses the bytes in every lane. -/
def reverseLanes (v : Register lanes width) : Register lanes width := ofBytes fun j k => v.byteAt j k.rev

@[simp] theorem byteAt_ofBytes (f : Fin lanes → Fin width → UInt8) (j : Fin lanes) (k : Fin width) :
    (ofBytes f).byteAt j k = f j k := by
  have hback := finProdFinEquiv.symm_apply_apply (j, k)
  rw [byteAt, ofBytes, Fin.getElem_fin, Vector.getElem_ofFn, Fin.eta, hback]

@[simp] theorem lane_ofBytes (f : Fin lanes → Fin width → UInt8) (j : Fin lanes) :
    (ofBytes f).lane j = List.ofFn (f j) := congrArg List.ofFn (funext (byteAt_ofBytes f j))

@[simp] theorem length_lane (v : Register lanes width) (j : Fin lanes) : (v.lane j).length = width := List.length_ofFn

theorem lane_reverseLanes (v : Register lanes width) (j : Fin lanes) : v.reverseLanes.lane j = (v.lane j).reverse := by
  rw [reverseLanes, lane_ofBytes, lane]
  refine List.ext_getElem (by simp) fun i hi hi' => ?_
  rw [List.getElem_ofFn, List.getElem_reverse, List.getElem_ofFn]
  congr 1
  ext
  simp [Fin.val_rev]
  omega

/-- **A lane whose bytes are reversed** holds the number that its bytes are, most significant first. -/
theorem littleEndian_lane_reverseLanes (v : Register lanes width) (j : Fin lanes) :
    littleEndian (v.reverseLanes.lane j) = readFrom 0 (v.lane j) := by
  rw [lane_reverseLanes, littleEndian_reverse]

end Register

end MatchingEngine.Foundation
