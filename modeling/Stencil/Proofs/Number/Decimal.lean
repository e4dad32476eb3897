import Stencil.Number.Decimal
import Stencil.Proofs.Number.Shortest

/-!
# Exact decimal arithmetic

Where the precision is enough for decimal arithmetic.

**Argument.**  A number within the precision and the range of the exponents is left as it is
(`fix_of_fits`).  Putting it into other units carries into one digit more at most
(`digitCount_rescale_le`).  With four hundred digits before the point there is room for both, for
any number of places after it.

**Results.**  `multiply_hundred`, `scaleb_one` and `quantize_eq`: the operations do not fail, and
only the last one rounds.
-/

namespace Stencil
namespace Decimal

/-- The number without its sign. -/
def magnitude (d : Decimal) : ℚ := d.coefficient * 10 ^ d.exponent

/-- The number has room to grow by three digits in front of four hundred, and its last digit is not
too small. -/
structure Fits (d : Decimal) : Prop where
  point_lt : d.exponent + d.digitCount < 397
  digitCount_lt : d.digitCount < 397
  exponent_ge : -999999 ≤ d.exponent

theorem digitCount_pos (d : Decimal) : 0 < d.digitCount :=
  List.length_pos_of_ne_nil (Text.ofNat_ne_nil _)

theorem lt_ten_pow_digitCount (d : Decimal) : d.coefficient < 10 ^ d.digitCount :=
  Text.lt_ten_pow_length d.coefficient

/-- A number within the precision and the range of the exponents is left as it is. -/
theorem fix_of_fits {precision : Nat} {d : Decimal} (hdigits : d.digitCount ≤ precision)
    (hleast : leastExponent precision ≤ d.exponent) (hmax : d.adjusted ≤ maxExponent) :
    d.fix precision = .ok d := by
  have hcount := d.digitCount_pos
  have hadjusted : d.adjusted = d.exponent + d.digitCount - 1 := rfl
  unfold fix
  split
  · rw [max_eq_left hleast, min_eq_left (by omega)]
  · rw [if_neg hmax.not_gt]
    simp only
    rw [if_pos (max_le (by omega) hleast)]

/-- The number in other units, a half going to the even neighbour. -/
theorem isHalfEven_rescale (d : Decimal) (places : Nat) :
    IsHalfEven (d.magnitude * 10 ^ places) (d.rescale (-places)).coefficient := by
  have hpow : (10 : ℚ) ^ (-(d.exponent - -(places : Int))).toNat ≠ 0 := by positivity
  have hvalue : d.magnitude * 10 ^ places =
      (d.coefficient * Nat.pow 10 (d.exponent - -(places : Int)).toNat : Nat) /
        (Nat.pow 10 (-(d.exponent - -(places : Int))).toNat : Nat) := by
    show _ = ((d.coefficient * 10 ^ (d.exponent - -(places : Int)).toNat : Nat) : ℚ) /
      (10 ^ (-(d.exponent - -(places : Int))).toNat : Nat)
    push_cast
    rw [eq_div_iff hpow, magnitude, mul_assoc, mul_assoc, ← zpow_natCast 10 places,
      ← mul_assoc (10 ^ d.exponent), ← zpow_add₀ (by norm_num), ← sub_neg_eq_add d.exponent,
      zpow_mul_toNat (by norm_num)]
  rw [hvalue]
  exact isHalfEven_roundHalfEven _ (Nat.pow_pos (by decide))

/-- Rounding carries into one digit more at most. -/
theorem digitCount_rescale_le {d : Decimal} {places count : Nat}
    (hcount : d.exponent + d.digitCount + places ≤ count) :
    (d.rescale (-places)).digitCount ≤ count + 1 := by
  have hnear := (abs_le.1 (d.isHalfEven_rescale places).near).1
  have hten : (10 : ℚ) ≠ 0 := by norm_num
  have hcoefficient : (d.coefficient : ℚ) < 10 ^ d.digitCount := by
    exact_mod_cast d.lt_ten_pow_digitCount
  have hmagnitude : d.magnitude * 10 ^ places < 10 ^ count := by
    calc d.magnitude * 10 ^ places
        < 10 ^ d.digitCount * 10 ^ d.exponent * 10 ^ places := by
          unfold magnitude
          gcongr
      _ = 10 ^ (d.exponent + d.digitCount + places) := by
          rw [zpow_add₀ hten, zpow_add₀ hten, zpow_natCast, zpow_natCast,
            mul_comm (10 ^ d.exponent)]
      _ ≤ 10 ^ (count : Int) := zpow_le_zpow_right₀ (by norm_num) hcount
      _ = 10 ^ count := zpow_natCast 10 count
  have hlt : ((d.rescale (-places)).coefficient : ℚ) < 10 ^ count + 1 := by linarith
  have hlt' : (d.rescale (-places)).coefficient < 10 ^ count + 1 := by exact_mod_cast hlt
  refine Text.length_ofNat_le (Nat.succ_pos count) ?_
  have hone : 1 ≤ 10 ^ count := Nat.one_le_pow _ _ (by decide)
  rw [pow_succ]
  omega

theorem fits_ofInt (n : Int64) : (ofInt n.toInt).Fits := by
  have hdigits : (ofInt n.toInt).digitCount ≤ 19 := Text.length_ofNat_natAbs_le n
  have hexponent : (ofInt n.toInt).exponent = 0 := rfl
  exact ⟨by omega, by omega, by omega⟩

/-- The shortest text of a double has few digits, and its point is in the range of the doubles. -/
theorem fits_ofDouble {x : Float} (h : Double.isFinite x = true) : (ofDouble x).Fits := by
  have hlt : Double.magnitude x < Double.infinity := of_decide_eq_true h
  unfold ofDouble
  split
  · generalize Double.isNegative x = negative
    cases negative <;> exact ⟨by decide, by decide, by decide⟩
  · next hne =>
      have hpos := Nat.pos_of_ne_zero hne
      have hnormal := Double.normal_shortest (Double.magnitude x)
      obtain ⟨hsome, hsmall⟩ := Double.shortest_computed hpos hlt
      obtain ⟨hlength, hvalue⟩ := Double.shortest_bounds hpos hlt
      have hlarge := Double.point_le hnormal hsome hpos hlt hvalue
      generalize Double.shortest (Double.magnitude x) = n at *
      have hdigits : (Text.ofNat n.coefficient).length ≤ n.digits.length :=
        Text.length_ofNat_le (List.length_pos_of_ne_nil hsome)
          (Numeral.digitsValue_lt hnormal.isDigit)
      have hexponent : n.exponent = n.point - n.digits.length := rfl
      refine ⟨?_, ?_, ?_⟩
      · show n.exponent + (Text.ofNat n.coefficient).length < (397 : Int)
        omega
      · show (Text.ofNat n.coefficient).length < 397
        omega
      · show -999999 ≤ n.exponent
        omega

theorem digitCount_mul_hundred_le (d : Decimal) :
    ({ d with coefficient := d.coefficient * 100 } : Decimal).digitCount ≤ d.digitCount + 2 := by
  refine Text.length_ofNat_le (Nat.succ_pos _) ?_
  rw [pow_succ, pow_succ]
  have hlt := d.lt_ten_pow_digitCount
  show d.coefficient * 100 < _
  omega

/-- A number times one hundred is not rounded. -/
theorem multiply_hundred {d : Decimal} (h : d.Fits) (places : Nat) :
    d.multiply (400 + places) ⟨false, 100, 0⟩ =
      .ok { d with coefficient := d.coefficient * 100 } := by
  obtain ⟨hpoint, hdigits, hexponent⟩ := h
  have hcount := d.digitCount_mul_hundred_le
  have hproduct : (⟨d.negative != false, d.coefficient * 100, d.exponent + 0⟩ : Decimal) =
      { d with coefficient := d.coefficient * 100 } := by
    simp
  rw [multiply, hproduct]
  refine fix_of_fits (by omega) ?_ ?_
  · show -999999 - ((400 + places : Nat) : Int) + 1 ≤ d.exponent
    omega
  · show d.exponent + _ - 1 ≤ (999999 : Int)
    omega

/-- The unit of the last place, which is less than all other exponents of its size. -/
theorem scaleb_one (places : Nat) :
    scaleb (400 + places) ⟨false, 1, 0⟩ (-places) = .ok ⟨false, 1, -places⟩ := by
  have hcount : (⟨false, 1, -(places : Int)⟩ : Decimal).digitCount = 1 := by
    show (Text.ofNat 1).length = 1
    decide
  have hrange : ¬ 2 * (maxExponent + ((400 + places : Nat) : Int)) < (-(places : Int)).natAbs := by
    show ¬ 2 * ((999999 : Int) + ((400 + places : Nat) : Int)) < (-(places : Int)).natAbs
    omega
  rw [scaleb, if_neg hrange, Int.zero_add]
  refine fix_of_fits (hcount.trans_le (by omega)) ?_ ?_
  · show -999999 - ((400 + places : Nat) : Int) + 1 ≤ -(places : Int)
    omega
  · rw [adjusted, hcount]
    show -(places : Int) + ((1 : Nat) : Int) - 1 ≤ (999999 : Int)
    omega

/-- A number in units of the last place. -/
theorem quantize_eq {d : Decimal} (hpoint : d.exponent + d.digitCount < 400) (places : Nat) :
    d.quantize (400 + places) ⟨false, 1, -places⟩ = .ok (d.rescale (-places)) := by
  have hadjusted : d.adjusted = d.exponent + d.digitCount - 1 := rfl
  have hmax : maxExponent = 999999 := rfl
  have hleast : leastExponent (400 + places) ≤ -(places : Int) := by
    show -999999 - ((400 + places : Nat) : Int) + 1 ≤ -(places : Int)
    omega
  have hcarried : (d.rescale (-places)).digitCount ≤ 399 + places + 1 :=
    digitCount_rescale_le (by push_cast; omega)
  have hcount : (d.rescale (-places)).digitCount ≤ 400 + places := by omega
  have hscaled : (d.rescale (-places)).adjusted ≤ maxExponent := by
    show -(places : Int) + _ - 1 ≤ (999999 : Int)
    omega
  have hfix : (d.rescale (-places)).fix (400 + places) = .ok (d.rescale (-places)) :=
    fix_of_fits hcount hleast hscaled
  unfold quantize
  simp only
  rw [if_neg (by omega)]
  split
  · next hzero =>
      have hsame : ({ d with exponent := -(places : Int) } : Decimal) = d.rescale (-places) := by
        simp [rescale, roundHalfEven, hzero]
      rw [hsame, hfix]
  · rw [if_neg (by omega), if_neg (by omega), hfix]

end Decimal
end Stencil
