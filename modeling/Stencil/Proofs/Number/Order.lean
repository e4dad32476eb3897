import Mathlib.Data.EReal.Operations
import Stencil.Proofs.Number.Bits
import Stencil.Proofs.Number.Shortest

/-!
# The order of doubles

The order of doubles, and the extended real numbers that they stand for.

The comparison of doubles looks at them as numbers, and apart from that at the value that is no
number and at the signs of the zeros.  It is the order of one integer, the `rank`.

**Argument.**  A number is put together from its sign, its unit and its significand
(`unpack_of_number`), and numbers are compared in that order of parts.  The unit and then the
significand are in the order of the magnitudes, so that numbers are in the order of their signed
magnitudes (`compare_unpack`), from which the rank differs in the zeros only.

Of two finite magnitudes the greater one has the greater value: a greater unit
outweighs every significand (`value_strictMono`).  With infinity on top the same holds of all
magnitudes of numbers (`size_lt_size_iff`), and a sign turns it around.  The two zeros are the only
numbers with the same value, and their ranks differ.

An integer of at most `2 ^ 53` is the value of a magnitude (`exists_value_eq`), so that rounding it
to a double changes nothing.

**Results.**
* `compare_eq_compare_rank`: doubles are compared by their ranks.
* `rank_lt_rank_iff`: the order of the ranks is that of the numbers, with negative zero below zero.
* `rank_lt_rank_of_isNaN`: the value that is no number has the greatest rank of all.
* `toEReal_ofInt`: an integer of at most `2 ^ 53` is kept when it becomes a double.
-/

open Float.Model UnpackedFloat

namespace Stencil
namespace Double

/-- The key that doubles are ordered by: negative zero comes just before zero, and the value that
is no number after infinity. -/
def rank (x : Float) : Int :=
  if isNegative x then -(magnitude x : Int) - 1 else magnitude x

theorem value_zero : value 0 = 0 := by
  simp [value, significand]

/-- The significand of a finite magnitude has no more than its bits. -/
theorem significand_lt (b : Nat) : significand b < 2 ^ 53 := by
  rcases Nat.eq_zero_or_pos b with rfl | hb
  · decide
  · exact (significand_bounds hb).2.1

/-- The sign of a double. -/
def sign (x : Float) : Sign := if isNegative x then .negative else .positive

/-- The magnitude with the sign, so that the two zeros are the same. -/
def signed (x : Float) : Int := if isNegative x then -(magnitude x : Int) else magnitude x

/-- Magnitudes are in the order of their units, and of their significands where these are equal. -/
theorem compare_magnitudes (a b : Nat) :
    (Ord.compare (scale a) (scale b)).then (Ord.compare (significand a) (significand b)) =
      Ord.compare a b := by
  have ha := eq_of_significand a
  have hb := eq_of_significand b
  have hscale (b : Nat) : scale b = (max (b / 2 ^ 52) 1 : Nat) - 1075 := rfl
  have hsig (b : Nat) : significand b = if b < 2 ^ 52 then b else 2 ^ 52 + b % 2 ^ 52 := rfl
  have hmono {a b : Nat} (h : a ≤ b) : scale a ≤ scale b := by
    have hdiv : a / 2 ^ 52 ≤ b / 2 ^ 52 := Nat.div_le_div_right h
    rw [hscale, hscale]
    omega
  rcases lt_trichotomy (scale a) (scale b) with hlt | heq | hgt
  · have hab : a < b := not_le.1 fun h => absurd (hmono h) (not_le.2 hlt)
    rw [compare_lt_iff_lt.2 hlt, compare_lt_iff_lt.2 hab]
    rfl
  · rw [compare_eq_iff_eq.2 heq, Ordering.eq_then]
    rw [heq] at ha
    rcases lt_trichotomy (significand a) (significand b) with h | h | h
    · rw [compare_lt_iff_lt.2 h, compare_lt_iff_lt.2 (by omega)]
    · rw [compare_eq_iff_eq.2 h, compare_eq_iff_eq.2 (by omega)]
    · rw [compare_gt_iff_gt.2 h, compare_gt_iff_gt.2 (by omega)]
  · have hab : b < a := not_le.1 fun h => absurd (hmono h) (not_le.2 hgt)
    rw [compare_gt_iff_gt.2 hgt, compare_gt_iff_gt.2 hab]
    rfl

/-- The bits of a double. -/
def word (x : Float) : BitVec Format.binary64.numBits := x.toBits.toBitVec

theorem toNat_word (x : Float) :
    (word x).toNat = x.toBits.toNat ∧ magnitude x = (word x).toNat % 2 ^ 63 ∧
      (isNegative x = true ↔ 2 ^ 63 ≤ (word x).toNat) :=
  ⟨rfl, rfl, decide_eq_true_iff⟩

variable {x : Float}

theorem toNat_unpackExponent (x : Float) :
    (unpackExponent (word x)).toNat = (word x).toNat / 2 ^ 52 % 2 ^ 11 := by
  simp [unpackExponent, Nat.shiftRight_eq_div_pow]

theorem toNat_unpackMantissa (x : Float) :
    (unpackMantissa (word x)).toNat = (word x).toNat % 2 ^ 52 := by
  simp [unpackMantissa]

theorem ofBitVec_unpackSign (x : Float) : Sign.ofBitVec (unpackSign (word x)) = sign x := by
  have hlt : (word x).toNat < 2 ^ 64 := (word x).isLt
  have hbit : (unpackSign (word x)).toNat = (word x).toNat / 2 ^ 63 := by
    simp [unpackSign, Nat.shiftRight_eq_div_pow]
    omega
  obtain ⟨-, -, hneg⟩ := toNat_word x
  have hzero : unpackSign (word x) = 0#1 ↔ isNegative x ≠ true := by
    rw [Ne, hneg, ← BitVec.toNat_inj, hbit]
    show (word x).toNat / 2 ^ 63 = 0 ↔ _
    omega
  unfold Sign.ofBitVec sign
  by_cases h : isNegative x = true
  · rw [if_neg fun h' => hzero.1 h' h, if_pos h]
  · rw [if_pos (hzero.2 h), if_neg h]

/-- What the bits of a number are made of. -/
theorem unpack_of_number (h : isNaN x = false) :
    (magnitude x = infinity ∧ x.toModel.unpack = .infinity (sign x)) ∨
    (magnitude x = 0 ∧ x.toModel.unpack = .zero (sign x)) ∨
    ∃ hpos, 0 < magnitude x ∧ magnitude x < infinity ∧ x.toModel.unpack =
      .finite (sign x) (significand (magnitude x)) (scale (magnitude x)) hpos := by
  have hle : magnitude x ≤ 2047 * 2 ^ 52 := not_lt.1 (of_decide_eq_false h)
  have hscale (m : Nat) : scale m = (max (m / 2 ^ 52) 1 : Nat) - 1075 := rfl
  have hsig (m : Nat) : significand m = if m < 2 ^ 52 then m else 2 ^ 52 + m % 2 ^ 52 := rfl
  have hinfinity : infinity = 2047 * 2 ^ 52 := rfl
  obtain ⟨-, hmagnitude, -⟩ := toNat_word x
  have hexp := toNat_unpackExponent x
  have hman := toNat_unpackMantissa x
  have hfull : unpackExponent (word x) = -1#_ ↔
      (unpackExponent (word x)).toNat = 2047 := BitVec.toNat_inj.symm
  have hnone : unpackExponent (word x) = 0#_ ↔
      (unpackExponent (word x)).toNat = 0 := BitVec.toNat_inj.symm
  have hzero : unpackMantissa (word x) = 0#_ ↔
      (unpackMantissa (word x)).toNat = 0 := BitVec.toNat_inj.symm
  have hunpack : x.toModel.unpack = UnpackedFloat.unpack Format.binary64 (word x) := rfl
  rw [hunpack, UnpackedFloat.unpack, ofBitVec_unpackSign]
  by_cases hinf : unpackExponent (word x) = -1#_
  · have he := hfull.1 hinf
    refine Or.inl ⟨by omega, ?_⟩
    rw [if_pos hinf, if_pos (hzero.2 (by omega))]
  rw [if_neg hinf]
  have he := mt hfull.2 hinf
  refine Or.inr ?_
  by_cases hsub : unpackExponent (word x) = 0#_
  · have he := hnone.1 hsub
    rw [if_pos hsub]
    by_cases hm : unpackMantissa (word x) = 0#_
    · have hm' := hzero.1 hm
      exact Or.inl ⟨by omega, dif_pos hm⟩
    · have hm' := mt hzero.2 hm
      have hm'' : significand (magnitude x) = (unpackMantissa (word x)).toNat := by
        rw [hsig, if_pos (by omega)]
        omega
      have he'' : scale (magnitude x) = -1074 := by
        rw [hscale]
        omega
      refine Or.inr ⟨by omega, by omega, by omega, ?_⟩
      rw [dif_neg hm]
      simp [hm'', he'', he, Format.exponentBias]
  · have he := mt hnone.2 hsub
    have hm'' : significand (magnitude x) = 2 ^ 52 + (unpackMantissa (word x)).toNat := by
      rw [hsig, if_neg (by omega)]
      omega
    have he'' : scale (magnitude x) = (unpackExponent (word x)).toNat - 1075 := by
      rw [hscale]
      omega
    have hcat : (1#1 ++ unpackMantissa (word x)).toNat =
        2 ^ 52 + (unpackMantissa (word x)).toNat := by
      have hlt : (unpackMantissa (word x)).toNat < 2 ^ 52 := (unpackMantissa (word x)).isLt
      rw [BitVec.toNat_append]
      exact (Nat.shiftLeft_add_eq_or_of_lt hlt 1).symm
    refine Or.inr ⟨by omega, by omega, by omega, ?_⟩
    rw [if_neg hsub]
    simp only [hm'', he'', hcat, Format.exponentBias]
    rfl



/-- The comparison of numbers is that of their signed magnitudes. -/
theorem compare_unpack {x y : Float} (hx : isNaN x = false) (hy : isNaN y = false) :
    x.toModel.unpack.compare y.toModel.unpack = some (Ord.compare (signed x) (signed y)) := by
  have hint (a b : Int) : Ord.compare a b = if a < b then .lt else if a = b then .eq else .gt := rfl
  have hnat (a b : Nat) : Ord.compare a b = if a < b then .lt else if a = b then .eq else .gt := rfl
  have hsame (s : Sign) : Ord.compare s s = .eq := by cases s <;> rfl
  have hlt : Ord.compare Sign.negative .positive = .lt := rfl
  have hgt : Ord.compare Sign.positive .negative = .gt := rfl
  have hpos : 0 < infinity := by decide
  rcases unpack_of_number hx with ⟨hmx, hux⟩ | ⟨hmx, hux⟩ | ⟨hpx, hposx, hmx, hux⟩ <;>
    rcases unpack_of_number hy with ⟨hmy, huy⟩ | ⟨hmy, huy⟩ | ⟨hpy, hposy, hmy, huy⟩ <;>
    rw [hux, huy] <;> unfold sign signed <;> cases isNegative x <;> cases isNegative y <;>
    grind [UnpackedFloat.compare, compare_magnitudes, Ordering.swap]

theorem lt_iff_signed_lt {x y : Float} (hx : isNaN x = false) (hy : isNaN y = false) :
    x < y ↔ signed x < signed y := by
  have hmodel : x < y ↔ (x.toModel.unpack.compare y.toModel.unpack == some .lt) = true :=
    decide_eq_true_iff
  rw [hmodel, compare_unpack hx hy]
  simp [compare_lt_iff_lt]

theorem beq_iff_signed_eq {x y : Float} (hx : isNaN x = false) (hy : isNaN y = false) :
    (x == y) = true ↔ signed x = signed y := by
  have hmodel : (x == y) = (x.toModel.unpack.compare y.toModel.unpack == some .eq) := rfl
  rw [hmodel, compare_unpack hx hy]
  simp

/-- A greater magnitude has a greater value. -/
theorem value_strictMono : StrictMono value := by
  intro a b hab
  have ha := eq_of_significand a
  have hb := eq_of_significand b
  have hunit : -1074 ≤ scale a ∧ scale a ≤ scale b := by
    have hscale (b : Nat) : scale b = (max (b / 2 ^ 52) 1 : Nat) - 1075 := rfl
    have hdiv : a / 2 ^ 52 ≤ b / 2 ^ 52 := Nat.div_le_div_right hab.le
    rw [hscale, hscale]
    omega
  rcases hunit.2.eq_or_lt with heq | hlt
  · have hsig : (significand a : ℚ) < significand b := by
      rw [heq] at ha
      exact_mod_cast show significand a < significand b by omega
    unfold value
    rw [heq]
    gcongr
  · -- The unit is twice as large at least, and the significand has all its bits.
    have hfull : 2 ^ 52 ≤ significand b := by
      rcases (significand_bounds (Nat.zero_lt_of_lt hab)).2.2 with h | h <;> omega
    have hsig : (significand a : ℚ) < 2 ^ 53 := by exact_mod_cast significand_lt a
    have hfull' : (2 : ℚ) ^ 52 ≤ significand b := by exact_mod_cast hfull
    have hpow : (0 : ℚ) < 2 ^ scale a := by positivity
    calc value a < 2 ^ 53 * 2 ^ scale a := mul_lt_mul_of_pos_right hsig hpow
      _ = 2 ^ 52 * 2 ^ (scale a + 1) := by
          rw [zpow_add₀ two_ne_zero]
          ring
      _ ≤ significand b * 2 ^ scale b := by
          gcongr
          · exact one_le_two
          · exact hlt

/-- A significand with all its bits and a unit make a magnitude. -/
theorem exists_magnitude {m : Nat} {e : Int} (hm : 2 ^ 52 ≤ m) (hm' : m < 2 ^ 53)
    (he : -1074 ≤ e) (he' : e ≤ 971) :
    ∃ b, 0 < b ∧ b < infinity ∧ value b = m * 2 ^ e := by
  obtain ⟨k, hk⟩ := Int.eq_ofNat_of_zero_le (show 0 ≤ e + 1074 by omega)
  have hfinite : k * 2 ^ 52 + m < 2047 * 2 ^ 52 := by omega
  have hsig : significand (k * 2 ^ 52 + m) = m := by
    show (if k * 2 ^ 52 + m < 2 ^ 52 then k * 2 ^ 52 + m
      else 2 ^ 52 + (k * 2 ^ 52 + m) % 2 ^ 52) = m
    rw [if_neg (by omega)]
    omega
  have hscale : scale (k * 2 ^ 52 + m) = e := by
    show ((max ((k * 2 ^ 52 + m) / 2 ^ 52) 1 : Nat) : Int) - 1075 = e
    omega
  exact ⟨k * 2 ^ 52 + m, by omega, hfinite, by rw [value, hsig, hscale]⟩

/-- A positive integer of at most `2 ^ 53` is the value of a magnitude. -/
theorem exists_value_eq {n : Nat} (hpos : 0 < n) (hle : n ≤ 2 ^ 53) :
    ∃ b, 0 < b ∧ b < infinity ∧ value b = n := by
  rcases hle.eq_or_lt with rfl | hlt
  · obtain ⟨b, hb, hfinite, hvalue⟩ := exists_magnitude (m := 2 ^ 52) (e := 1) le_rfl (by decide)
      (by decide) (by decide)
    exact ⟨b, hb, hfinite, by rw [hvalue]; norm_num⟩
  · -- The integer is shifted until its significand is full.
    have hlog : n.log2 < 53 := (Nat.log2_lt hpos.ne').2 hlt
    have hsplit : n.log2 + (52 - n.log2) = 52 := by omega
    have hlow : 2 ^ 52 ≤ n * 2 ^ (52 - n.log2) := by
      calc 2 ^ 52 = 2 ^ n.log2 * 2 ^ (52 - n.log2) := by rw [← Nat.pow_add, hsplit]
        _ ≤ n * 2 ^ (52 - n.log2) := Nat.mul_le_mul_right _ (Nat.log2_self_le hpos.ne')
    have hhigh : n * 2 ^ (52 - n.log2) < 2 ^ 53 := by
      calc n * 2 ^ (52 - n.log2) < 2 ^ (n.log2 + 1) * 2 ^ (52 - n.log2) :=
            Nat.mul_lt_mul_of_pos_right Nat.lt_log2_self (Nat.two_pow_pos _)
        _ = 2 ^ 53 := by rw [← Nat.pow_add]; congr 1; omega
    obtain ⟨b, hb, hfinite, hvalue⟩ := exists_magnitude (e := -((52 - n.log2 : Nat) : Int)) hlow
      hhigh (by omega) (by omega)
    refine ⟨b, hb, hfinite, ?_⟩
    rw [hvalue, zpow_neg, zpow_natCast]
    push_cast
    rw [mul_assoc, mul_inv_cancel₀ (by positivity), mul_one]

/-- The extended real number that a magnitude stands for. -/
noncomputable def size (b : Nat) : EReal := if b < infinity then ((value b : ℝ) : EReal) else ⊤

theorem size_zero : size 0 = 0 := by
  rw [size, if_pos (by decide), value_zero]
  simp

theorem size_strictMonoOn : StrictMonoOn size (Set.Iic infinity) := by
  intro a _ b hb hab
  have ha : a < infinity := hab.trans_le hb
  unfold size
  rw [if_pos ha]
  split
  · exact EReal.coe_lt_coe_iff.2 (Rat.cast_lt.2 (value_strictMono hab))
  · exact EReal.coe_lt_top _

theorem size_nonneg {b : Nat} (hb : b ≤ infinity) : 0 ≤ size b := by
  rw [← size_zero]
  exact (size_strictMonoOn.le_iff_le (Nat.zero_le _) hb).2 (Nat.zero_le b)

/-- The extended real number that a double stands for. -/
noncomputable def toEReal (x : Float) : EReal :=
  if isNegative x then -size (magnitude x) else size (magnitude x)

/-- The double is the zero with a minus sign. -/
def IsNegativeZero (x : Float) : Prop := isNegative x = true ∧ magnitude x = 0

theorem magnitude_le_of_isNaN_eq_false {x : Float} (h : isNaN x = false) :
    magnitude x ≤ infinity :=
  not_lt.1 (of_decide_eq_false h)

/-- The order of the ranks is that of the numbers, with negative zero below zero. -/
theorem rank_lt_rank_iff {x y : Float} (hx : isNaN x = false) (hy : isNaN y = false) :
    rank x < rank y ↔ toEReal x < toEReal y ∨
      toEReal x = toEReal y ∧ IsNegativeZero x ∧ ¬ IsNegativeZero y := by
  have hx' := magnitude_le_of_isNaN_eq_false hx
  have hy' := magnitude_le_of_isNaN_eq_false hy
  have hlt := size_strictMonoOn.lt_iff_lt (a := magnitude x) (b := magnitude y) hx' hy'
  have hgt := size_strictMonoOn.lt_iff_lt (a := magnitude y) (b := magnitude x) hy' hx'
  have hinj := size_strictMonoOn.injOn.eq_iff (x := magnitude x) (y := magnitude y) hx' hy'
  have hxpos := size_nonneg hx'
  have hypos := size_nonneg hy'
  unfold rank toEReal IsNegativeZero
  cases hsx : isNegative x <;> cases hsy : isNegative y
  case false.false =>
    simp [hlt]
  case true.true =>
    simp only [if_true, EReal.neg_lt_neg_iff, hgt, neg_inj, hinj, true_and]
    omega
  case true.false =>
    -- The ranks have different signs, and so have the numbers, unless both are zero.
    have hle : -size (magnitude x) ≤ size (magnitude y) :=
      (EReal.neg_le_neg_iff.2 hxpos).trans (by simpa using hypos)
    simp only [if_true, Bool.false_eq_true, if_false, false_and, not_false_iff, and_true,
      true_and]
    refine iff_of_true (by omega) (hle.lt_or_eq.imp_right fun heq => ⟨heq, ?_⟩)
    have hzero : size (magnitude x) = size 0 := by
      have hnonpos : -size (magnitude x) ≤ 0 := by simpa using EReal.neg_le_neg_iff.2 hxpos
      rw [size_zero]
      exact EReal.neg_eq_zero_iff.1 (le_antisymm hnonpos (heq ▸ hypos))
    exact (size_strictMonoOn.injOn.eq_iff hx' (Nat.zero_le _)).1 hzero
  case false.true =>
    have hge : -size (magnitude y) ≤ size (magnitude x) :=
      (EReal.neg_le_neg_iff.2 hypos).trans (by simpa using hxpos)
    simp only [if_true, Bool.false_eq_true, if_false, false_and, and_false, or_false,
      not_lt.2 hge, iff_false]
    omega

/-- The value that is no number has the greatest rank of all. -/
theorem rank_lt_rank_of_isNaN {x y : Float} (hx : isNaN x = false) (hy : isNaN y = true) :
    rank x < rank y := by
  have hle := magnitude_le_of_isNaN_eq_false hx
  have hnan : (infinity : Int) < rank nan := by decide +kernel
  have hx' : rank x ≤ magnitude x := by
    unfold rank
    split <;> omega
  rw [eq_nan_of_isNaN hy]
  omega

/-- Doubles are compared by their ranks. -/
theorem compare_eq_compare_rank (x y : Float) :
    compare x y = Ord.compare (rank x) (rank y) := by
  unfold compare
  cases hx : isNaN x with
  | true =>
      cases hy : isNaN y with
      | true =>
          rw [eq_nan_of_isNaN hx, eq_nan_of_isNaN hy, Std.ReflOrd.compare_self]
          rfl
      | false =>
          exact (compare_gt_iff_gt.2 (rank_lt_rank_of_isNaN hy hx)).symm
  | false =>
      cases hy : isNaN y with
      | true =>
          exact (compare_lt_iff_lt.2 (rank_lt_rank_of_isNaN hx hy)).symm
      | false =>
          have hzero : (y == 0) = true ↔ signed y = 0 := beq_iff_signed_eq hy (by decide +kernel)
          have hequal := beq_iff_signed_eq hx hy
          have hless := lt_iff_signed_lt hx hy
          have hgreater := lt_iff_signed_lt hy hx
          simp only [Bool.false_eq_true, if_false, Bool.and_eq_true, hequal, hzero, hless,
            hgreater]
          have hranks (a b : Int) :
              Ord.compare a b = if a < b then .lt else if a = b then .eq else .gt := rfl
          have hsigns (a b : Bool) :
              Ord.compare (!a) (!b) = if a = b then .eq else if a then .lt else .gt := by
            cases a <;> cases b <;> rfl
          rw [hranks, hsigns]
          unfold signed rank
          cases isNegative x <;> cases isNegative y <;> grind

/-- The comparison of doubles turns around with its operands. -/
theorem compare_swap (x y : Float) : compare y x = (compare x y).swap := by
  rw [compare_eq_compare_rank, compare_eq_compare_rank]
  exact Std.OrientedOrd.eq_swap

/-- Doubles of the same rank are the same. -/
theorem rank_injective : Function.Injective rank := by
  intro x y h
  have hsame : isNegative x = isNegative y ∧ magnitude x = magnitude y := by
    unfold rank at h
    cases hx : isNegative x <;> cases hy : isNegative y <;>
      simp only [hx, hy, if_true, if_false, Bool.false_eq_true, true_and] at h ⊢ <;> omega
  rw [← ofMagnitude_magnitude x, ← ofMagnitude_magnitude y, hsame.1, hsame.2]

/-- The magnitude that an integer is rounded to is that of a number. -/
theorem sign_and_magnitude_ofInt (n : Int) :
    isNegative (ofInt n) = decide (n < 0) ∧
      magnitude (ofInt n) = if n = 0 then 0 else nearest n.natAbs 1 := by
  refine sign_and_magnitude_ofMagnitude _ ?_
  split
  · exact Nat.zero_le _
  · exact Nat.min_le_right _ _

theorem isNaN_ofInt (n : Int) : isNaN (ofInt n) = false := by
  refine decide_eq_false (not_lt.2 ?_)
  rw [(sign_and_magnitude_ofInt n).2]
  split
  · exact Nat.zero_le _
  · exact Nat.min_le_right _ _

/-- An integer of at most `2 ^ 53` is kept when it becomes a double, and zero gets no minus sign. -/
theorem toEReal_ofInt {n : Int} (h : n.natAbs ≤ 2 ^ 53) :
    toEReal (ofInt n) = ((n : ℝ) : EReal) ∧ ¬ IsNegativeZero (ofInt n) := by
  obtain ⟨hsign, hmagnitude⟩ := sign_and_magnitude_ofInt n
  unfold toEReal IsNegativeZero
  rw [hsign, hmagnitude]
  rcases eq_or_ne n 0 with rfl | hne
  · simp [size_zero]
  · obtain ⟨b, hb, hfinite, hvalue⟩ := exists_value_eq (Int.natAbs_pos.2 hne) h
    have hnearest : nearest n.natAbs 1 = b :=
      nearest_of_exact hb hfinite Nat.one_pos (by simp [hvalue])
    have hsize : size b = ((n.natAbs : ℝ) : EReal) := by
      rw [size, if_pos hfinite, hvalue]
      norm_cast
    rw [if_neg hne, hnearest, hsize]
    refine ⟨?_, fun hzero => hb.ne' hzero.2⟩
    rcases lt_or_ge n 0 with hneg | hpos
    · have habs : ((n.natAbs : ℤ) : ℝ) = -(n : ℝ) := by
        rw [Int.ofNat_natAbs_of_nonpos hneg.le]
        push_cast
        rfl
      rw [if_pos (decide_eq_true hneg), ← Int.cast_natCast, habs, EReal.coe_neg, neg_neg]
    · have habs : ((n.natAbs : ℤ) : ℝ) = n := by rw [Int.natAbs_of_nonneg hpos]
      rw [if_neg (by simpa using hpos), ← Int.cast_natCast, habs]

end Double
end Stencil
