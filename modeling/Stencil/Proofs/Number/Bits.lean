import Mathlib
import Stencil.Number.Double

/-!
# Doubles and their bits

A double is known by its bits, and so by its sign and its magnitude.  There is one double that is no
number, since all bit patterns of no number stand for the same value.

**Results.**  `ofMagnitude_magnitude`, `eq_nan_of_isNaN`, and `sign_and_magnitude_ofMagnitude` for
the magnitudes of numbers.
-/

open Float.Model UnpackedFloat

namespace Stencil
namespace Double

/-- There is one value that is no number. -/
theorem eq_nan_of_isNaN {x : Float} (h : isNaN x = true) : x = nan := by
  obtain ⟨⟨bits, hvalid⟩⟩ := x
  have hlarge : 2047 * 2 ^ 52 < bits.toNat % 2 ^ 63 := of_decide_eq_true h
  let b : BitVec Format.binary64.numBits := bits.toBitVec
  have hb : b.toNat = bits.toNat := rfl
  have hexp : unpackExponent b = -1#_ := by
    apply BitVec.eq_of_toNat_eq
    have hlt := b.isLt
    simp [unpackExponent, Nat.shiftRight_eq_div_pow]
    omega
  have hman : unpackMantissa b ≠ 0#_ := by
    intro hzero
    have hrest := congrArg BitVec.toNat hzero
    simp [unpackMantissa] at hrest
    omega
  have hbits : b = packedNaN Format.binary64 := hvalid.eq_packedNaN hexp hman
  obtain rfl : bits = UInt64.ofBitVec (packedNaN Format.binary64) := by
    rw [← hbits]
  rfl

/-- A double is known by its sign and its magnitude. -/
theorem ofMagnitude_magnitude (x : Float) : ofMagnitude (isNegative x) (magnitude x) = x := by
  have hlt := x.toBits.toNat_lt
  have hbits : (if isNegative x = true then Nat.pow 2 63 + magnitude x else magnitude x) =
      x.toBits.toNat := by
    show (if decide (2 ^ 63 ≤ x.toBits.toNat) = true then 2 ^ 63 + x.toBits.toNat % 2 ^ 63
      else x.toBits.toNat % 2 ^ 63) = x.toBits.toNat
    split
    · next h =>
        have hle := of_decide_eq_true h
        omega
    · next h =>
        have hnot : ¬ 2 ^ 63 ≤ x.toBits.toNat := fun hle => h (decide_eq_true hle)
        omega
  rw [ofMagnitude, hbits, UInt64.ofNat_toNat, Float.ofBits_toBits]

/-- The bits of a number are kept. -/
theorem toBits_ofBits {bits : UInt64} (h : bits.toNat % 2 ^ 63 ≤ infinity) :
    (Float.ofBits bits).toBits = bits := by
  have hle : bits.toNat % 2 ^ 63 ≤ 2047 * 2 ^ 52 := h
  have hvalid : Format.binary64.Valid bits.toBitVec := by
    refine ⟨fun hexp hman => absurd ?_ hman⟩
    have hb : bits.toBitVec.toNat = bits.toNat := rfl
    have hexp' := congrArg BitVec.toNat hexp
    apply BitVec.eq_of_toNat_eq
    simp [unpackExponent, unpackMantissa, Nat.shiftRight_eq_div_pow, hb] at hexp' ⊢
    omega
  have hsame := Float.ofBits_toBits (.ofModel ⟨bits, hvalid⟩)
  exact congrArg Float.toBits hsame

/-- A number has the sign and the magnitude that it is made from. -/
theorem sign_and_magnitude_ofMagnitude (negative : Bool) {b : Nat} (h : b ≤ infinity) :
    isNegative (ofMagnitude negative b) = negative ∧ magnitude (ofMagnitude negative b) = b := by
  have hle : b ≤ 2047 * 2 ^ 52 := h
  let bits := UInt64.ofNat (if negative then 2 ^ 63 + b else b)
  have hnat : bits.toNat = if negative then 2 ^ 63 + b else b := by
    refine UInt64.toNat_ofNat_of_lt ?_
    show (if negative then 2 ^ 63 + b else b) < 2 ^ 64
    split <;> omega
  have hbits : (ofMagnitude negative b).toBits = bits := by
    refine @toBits_ofBits bits (le_trans (le_of_eq ?_) h)
    rw [hnat]
    split <;> omega
  unfold isNegative magnitude
  rw [hbits, hnat]
  show decide (2 ^ 63 ≤ if negative then 2 ^ 63 + b else b) = negative ∧
    (if negative then 2 ^ 63 + b else b) % 2 ^ 63 = b
  cases negative <;> simp <;> omega

end Double
end Stencil
