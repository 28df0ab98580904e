/-
**Numbers in bytes.**

A number of fixed width in memory, with its least byte first. `ofLittleEndian_littleEndian` reads it
back; the width is the number of bytes (`length_littleEndian`).
-/
import Mathlib.Algebra.Group.Nat.Defs

namespace Xcalbuild.Library

abbrev Bytes := List UInt8

/-- The bytes of a number, the least first. -/
def littleEndian : Nat → Nat → Bytes
  | 0, _ => []
  | width + 1, n => UInt8.ofNat n :: littleEndian width (n / 256)

/-- The number in bytes. -/
def ofLittleEndian : Bytes → Nat
  | [] => 0
  | byte :: bytes => byte.toNat + 256 * ofLittleEndian bytes

@[simp] theorem length_littleEndian (width n : Nat) : (littleEndian width n).length = width := by
  induction width generalizing n with
  | zero => rfl
  | succ width ih => rw [littleEndian, List.length_cons, ih]

/-- **A number that fits is read back.** -/
theorem ofLittleEndian_littleEndian {width n : Nat} (fits : n < 256 ^ width) :
    ofLittleEndian (littleEndian width n) = n := by
  induction width generalizing n with
  | zero =>
    have zero : n = 0 := Nat.lt_one_iff.mp fits
    rw [zero]
    rfl
  | succ width ih =>
    have high : n / 256 < 256 ^ width := by
      rw [Nat.div_lt_iff_lt_mul (by decide), ← Nat.pow_succ]
      exact fits
    rw [littleEndian, ofLittleEndian, ih high, UInt8.toNat_ofNat']
    exact Nat.mod_add_div n 256

end Xcalbuild.Library
