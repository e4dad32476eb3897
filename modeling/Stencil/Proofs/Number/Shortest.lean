import Stencil.Proofs.Number.Digits
import Stencil.Proofs.Number.Nearest

/-!
# The shortest numeral of a double

A finite double that is not zero is written by a numeral which is read back as the same double.

**Argument.**  A numeral that the search finds has been tested for this.  If the search finds none,
the exact value is written, and the double nearest to its own value is the double itself.  The
bounds beyond which a power of ten is not computed are out of the reach of all finite doubles.

**Results.**
* `value_ofScaled`: a numeral in its one form stands for the number it was made from.
* `ofNumeral_eq_of_value`: a numeral that stands for the value of a double is read as the double.
* `ofNumeral_shortest`: the shortest numeral is read as the double it was made for.
* `exists_withDigits_seventeen` and `shortest_bounds`: seventeen digits are enough, so that the
  shortest numeral has few of them.
-/

namespace Stencil
namespace Numeral

/-- The number that a numeral writes. -/
def value (n : Numeral) : ℚ := n.coefficient * 10 ^ n.exponent

theorem exists_dropWhile_zeros (digits : Text) :
    ∃ k, digits = List.replicate k (.char '0') ++ digits.dropWhile (· == .char '0') := by
  have hzeros : digits.takeWhile (· == .char '0') =
      List.replicate (digits.takeWhile (· == .char '0')).length (.char '0') := by
    refine List.eq_replicate_of_mem fun c hc => ?_
    have hzero : (c == .char '0') = true :=
      List.mem_takeWhile_imp (p := (· == CodePoint.char '0')) hc
    exact beq_iff_eq.1 hzero
  refine ⟨(digits.takeWhile (· == .char '0')).length, ?_⟩
  rw [← hzeros, List.takeWhile_append_dropWhile]

theorem exists_dropEndZeros (digits : Text) :
    ∃ k, digits = dropEndZeros digits ++ List.replicate k (.char '0') := by
  obtain ⟨k, hk⟩ := exists_dropWhile_zeros digits.reverse
  refine ⟨k, ?_⟩
  have hsplit := congrArg List.reverse hk
  rwa [List.reverse_append, List.reverse_replicate, List.reverse_reverse] at hsplit

theorem value_ofDigits (digits : Text) (point : Int) :
    (ofDigits digits point).value =
      Text.digitsValue digits * 10 ^ (point - digits.length) := by
  induction digits generalizing point with
  | nil =>
      simp [ofDigits, value, coefficient]
  | cons d rest ih =>
      by_cases hd : d = '0'
      · subst hd
        have hzero : Text.digitsValue (.char '0' :: rest) = Text.digitsValue rest := by
          rw [Text.digitsValue_cons]
          exact Nat.zero_add _
        rw [ofDigits_zero_cons, ih, hzero]
        congr 2
        simp only [List.length_cons]
        omega
      · obtain ⟨k, hk⟩ := exists_dropEndZeros rest
        have hform : ofDigits (d :: rest) point = ⟨d :: dropEndZeros rest, point⟩ := by
          simp [ofDigits, hd]
        have hdigits : Text.digitsValue (d :: rest) =
            10 ^ k * Text.digitsValue (d :: dropEndZeros rest) := by
          conv_lhs => rw [hk]
          rw [← List.cons_append, Text.digitsValue_append, Text.digitsValue_zeros,
            List.length_replicate, Nat.add_zero]
        have hlength : (d :: rest).length = (d :: dropEndZeros rest).length + k := by
          conv_lhs => rw [hk]
          simp only [List.length_cons, List.length_append, List.length_replicate]
          omega
        have hscale : point - (d :: dropEndZeros rest).length = point - (d :: rest).length + k := by
          rw [hlength]
          push_cast
          ring
        rw [hform, hdigits]
        show (Text.digitsValue (d :: dropEndZeros rest) : ℚ) *
          10 ^ (point - (d :: dropEndZeros rest).length) = _
        rw [hscale, zpow_add₀ (by norm_num), zpow_natCast]
        push_cast
        ring

/-- A numeral in its one form stands for the number it was made from. -/
theorem value_ofScaled (coefficient : Nat) (exponent : Int) :
    (ofScaled coefficient exponent).value = coefficient * 10 ^ exponent := by
  rw [ofScaled, value_ofDigits, Text.digitsValue_ofNat, add_sub_cancel_left]

theorem head_ofDigits_ne {digits rest : Text} {point : Int} :
    (ofDigits digits point).digits ≠ .char '0' :: rest := by
  induction digits generalizing point with
  | nil =>
      simp [ofDigits]
  | cons d digits ih =>
      unfold ofDigits
      split
      · exact ih
      · next hd =>
          simp [hd]

theorem digit_pos {c : CodePoint} (h : c.isDigit = true) (hne : c ≠ '0') :
    1 ≤ c.digit := by
  have hne' : c.toNat ≠ '0'.toNat := fun heq => hne (CodePoint.toNat_inj.1 heq)
  have hzero : '0'.toNat = 48 := rfl
  cases c with
  | surrogate n =>
      exact Bool.noConfusion h
  | char c =>
      simp only [CodePoint.isDigit, Char.isDigit, Bool.and_eq_true, decide_eq_true_eq] at h
      have hge : 48 ≤ (CodePoint.char c).toNat := h.1
      rw [CodePoint.digit]
      omega

/-- A numeral in its one form lies between the powers of ten that its point tells. -/
theorem value_bounds {n : Numeral} (h : n.Normal) (hne : n.digits ≠ []) :
    (10 : ℚ) ^ (n.point - 1) ≤ n.value ∧ n.value < 10 ^ n.point := by
  obtain ⟨digits, point⟩ := n
  cases digits with
  | nil =>
      exact absurd rfl hne
  | cons d rest =>
      have hd : d ≠ '0' := by
        rintro rfl
        exact head_ofDigits_ne (congrArg Numeral.digits h.ofDigits_eq)
      have hlower : 10 ^ rest.length ≤ Text.digitsValue (d :: rest) := by
        have hpos := digit_pos (h.isDigit d List.mem_cons_self) hd
        rw [Text.digitsValue_cons]
        exact le_add_right (Nat.le_mul_of_pos_right _ hpos)
      have hupper := digitsValue_lt h.isDigit
      have hlower' : (10 : ℚ) ^ rest.length ≤ Text.digitsValue (d :: rest) := by
        exact_mod_cast hlower
      have hupper' : (Text.digitsValue (d :: rest) : ℚ) < 10 ^ (rest.length + 1) := by
        exact_mod_cast hupper
      have hten : (10 : ℚ) ≠ 0 := by norm_num
      have hunit : (0 : ℚ) < 10 ^ (point - (rest.length + 1 : Nat)) := by positivity
      -- Both bounds are powers of ten in the unit of the last digit.
      have hlow : (10 : ℚ) ^ (point - 1) =
          10 ^ rest.length * 10 ^ (point - (rest.length + 1 : Nat)) := by
        rw [← zpow_natCast, ← zpow_add₀ hten]
        congr 1
        push_cast
        ring
      have hhigh : (10 : ℚ) ^ point =
          10 ^ (rest.length + 1) * 10 ^ (point - (rest.length + 1 : Nat)) := by
        rw [← zpow_natCast, ← zpow_add₀ hten]
        congr 1
        push_cast
        ring
      show (10 : ℚ) ^ (point - 1) ≤ Text.digitsValue (d :: rest) * 10 ^ (point -
          (rest.length + 1 : Nat)) ∧ Text.digitsValue (d :: rest) * 10 ^ (point -
          (rest.length + 1 : Nat)) < (10 : ℚ) ^ point
      rw [hlow, hhigh]
      constructor <;> gcongr

end Numeral

namespace Double

open Numeral

theorem scale_bounds {b : Nat} (hfinite : b < infinity) : -1074 ≤ scale b ∧ scale b ≤ 971 := by
  have hscale : scale b = (max (b / 2 ^ 52) 1 : Nat) - 1075 := rfl
  have hlt : b < 2047 * 2 ^ 52 := hfinite
  omega

theorem value_range {b : Nat} (hb : 0 < b) (hfinite : b < infinity) :
    (2 : ℚ) ^ (-1074 : ℤ) ≤ value b ∧ value b < 2 ^ (1024 : ℤ) := by
  obtain ⟨hpos, hlt, -⟩ := significand_bounds hb
  obtain ⟨hlow, hhigh⟩ := scale_bounds hfinite
  have hone : (1 : ℚ) ≤ significand b := by exact_mod_cast hpos
  have hlt' : (significand b : ℚ) < 2 ^ (53 : ℤ) := by exact_mod_cast hlt
  have hunit : (0 : ℚ) < 2 ^ scale b := by positivity
  constructor
  · calc (2 : ℚ) ^ (-1074 : ℤ) ≤ 2 ^ scale b := zpow_le_zpow_right₀ one_le_two hlow
      _ ≤ value b := le_mul_of_one_le_left hunit.le hone
  · calc value b < 2 ^ (53 : ℤ) * 2 ^ scale b := mul_lt_mul_of_pos_right hlt' hunit
      _ ≤ 2 ^ (53 : ℤ) * 2 ^ (971 : ℤ) := by gcongr; exact one_le_two
      _ = 2 ^ (1024 : ℤ) := by rw [← zpow_add₀ two_ne_zero]; norm_num

theorem two_pow_lt {j k : Nat} (hj : 0 < j) (hk : k ≤ 3 * j) : (2 : ℚ) ^ k < 10 ^ j := by
  calc (2 : ℚ) ^ k ≤ 2 ^ (3 * j) := pow_le_pow_right₀ one_le_two hk
    _ = (2 ^ 3) ^ j := pow_mul 2 3 j
    _ < 10 ^ j := pow_lt_pow_left₀ (by norm_num) (by norm_num) hj.ne'

/-- The point of a numeral that is no greater than twice the value of a double. -/
theorem point_le {b : Nat} {n : Numeral} (hn : n.Normal) (hne : n.digits ≠ [])
    (hb : 0 < b) (hfinite : b < infinity) (hvalue : n.value ≤ 2 * value b) : n.point ≤ 350 := by
  have hlower := (value_bounds hn hne).1
  have hmax := (value_range hb hfinite).2
  by_contra hlt
  refine lt_irrefl n.value ?_
  calc n.value ≤ 2 * value b := hvalue
    _ < 2 * 2 ^ (1024 : ℤ) := mul_lt_mul_of_pos_left hmax two_pos
    _ = 2 ^ 1025 := by rw [← zpow_natCast, show ((1025 : Nat) : ℤ) = 1 + 1024 from rfl,
        zpow_add₀ two_ne_zero, zpow_one]
    _ < 10 ^ 350 := two_pow_lt (by decide) (by decide)
    _ = 10 ^ ((350 : Nat) : ℤ) := (zpow_natCast 10 350).symm
    _ ≤ 10 ^ (n.point - 1) := zpow_le_zpow_right₀ (by norm_num) (by omega)
    _ ≤ n.value := hlower

/-- The point of a numeral that is no less than half the value of a double. -/
theorem le_point {b : Nat} {n : Numeral} (hn : n.Normal) (hne : n.digits ≠ [])
    (hb : 0 < b) (hfinite : b < infinity) (hvalue : value b ≤ 2 * n.value) : -400 ≤ n.point := by
  have hupper := (value_bounds hn hne).2
  have hmin := (value_range hb hfinite).1
  by_contra hlt
  refine lt_irrefl (value b) ?_
  calc value b ≤ 2 * n.value := hvalue
    _ < 2 * 10 ^ n.point := mul_lt_mul_of_pos_left hupper two_pos
    _ ≤ 2 * 10 ^ (-(400 : Nat) : ℤ) := by
        gcongr
        · norm_num
        · omega
    _ = 2 * (10 ^ 400)⁻¹ := by rw [zpow_neg, zpow_natCast]
    _ ≤ 2 * (2 ^ 1075)⁻¹ := by
        gcongr
        exact (two_pow_lt (by decide) (by decide)).le
    _ = 2 ^ (-1074 : ℤ) := by
        rw [← zpow_natCast, ← zpow_neg, show (-1074 : ℤ) = 1 + -((1075 : Nat) : ℤ) from rfl,
          zpow_add₀ two_ne_zero, zpow_one]
    _ ≤ value b := hmin

/-- A numeral that is near enough to the value of a double is read as the double.  The powers of
ten that are not computed are out of the range of the doubles. -/
theorem ofNumeral_of_near {b : Nat} {n : Numeral} (hn : n.Normal) (hb : 0 < b)
    (hfinite : b < infinity) (hnear : |n.value - value b| < value b / 2 ^ 54) :
    ofNumeral n = b := by
  have hpos := value_pos hb
  obtain ⟨hlow, hhigh⟩ := abs_lt.1 hnear
  have hne : n.digits ≠ [] := by
    intro hnil
    have hzero : n.value = 0 := by simp [Numeral.value, coefficient, hnil]
    rw [hzero] at hlow
    linarith
  have hlarge := point_le hn hne hb hfinite (by linarith)
  have hsmall := le_point hn hne hb hfinite (by linarith)
  have hnot : ¬ (n.digits = [] ∨ n.point < -400) := fun h => h.elim hne hsmall.not_gt
  rw [ofNumeral, if_neg hnot, if_neg (by omega)]
  refine nearest_of_near hb hfinite (Nat.pow_pos (by decide)) ?_
  have hpow : (10 : ℚ) ^ (-n.exponent).toNat ≠ 0 := by positivity
  have hratio : ((n.coefficient * Nat.pow 10 n.exponent.toNat : Nat) : ℚ) /
      (Nat.pow 10 (-n.exponent).toNat : Nat) = n.value := by
    show ((n.coefficient * 10 ^ n.exponent.toNat : Nat) : ℚ) / (10 ^ (-n.exponent).toNat : Nat) = _
    push_cast
    rw [Numeral.value, div_eq_iff hpow, mul_assoc, zpow_mul_toNat (by norm_num)]
  rwa [hratio]

/-- A numeral that stands for the value of a double is read as the double. -/
theorem ofNumeral_eq_of_value {b : Nat} {n : Numeral} (hn : n.Normal) (hb : 0 < b)
    (hfinite : b < infinity) (hvalue : n.value = value b) : ofNumeral n = b := by
  refine ofNumeral_of_near hn hb hfinite ?_
  rw [hvalue, sub_self, abs_zero]
  exact div_pos (value_pos hb) (by positivity)

/-- The exact digits of a magnitude write its value. -/
theorem value_exactDigits (b : Nat) :
    (exactDigits b : ℚ) * 10 ^ exactExponent b = value b := by
  show ((significand b * 2 ^ (scale b).toNat * 5 ^ (-scale b).toNat : Nat) : ℚ) *
    10 ^ min (scale b) 0 = _
  unfold value
  push_cast
  rcases le_total 0 (scale b) with h | h
  · obtain ⟨k, hk⟩ := Int.eq_ofNat_of_zero_le h
    simp [hk]
  · obtain ⟨k, hk⟩ := Int.eq_ofNat_of_zero_le (Int.neg_nonneg.2 h)
    obtain hk : scale b = -(k : ℤ) := by omega
    have hten : (10 : ℚ) ^ k = 2 ^ k * 5 ^ k := by rw [← mul_pow]; norm_num
    rw [min_eq_left h, hk]
    simp only [neg_neg, Int.toNat_natCast, Int.toNat_neg_natCast, pow_zero, mul_one, zpow_neg,
      zpow_natCast, hten]
    field_simp

theorem roundHalfEven_mem_neighbours (n unit : Nat) :
    roundHalfEven n unit ∈ neighbours n unit := by
  simp only [neighbours]
  split <;> exact List.mem_cons_self

theorem le_of_mem_neighbours {n unit c : Nat} (h : c ∈ neighbours n unit) : c ≤ n / unit + 1 := by
  have hnear : roundHalfEven n unit ≤ n / unit + 1 := by
    simp only [roundHalfEven]
    split <;> omega
  simp only [neighbours] at h
  split at h <;> rcases List.mem_pair.1 h with rfl | rfl <;> omega

/-- A rounding of the exact digits is the number of full units in them, or the next one. -/
theorem exists_of_withDigits {b count : Nat} {n : Numeral} (h : withDigits? b count = some n) :
    ∃ excess c, 0 < excess ∧ excess = (Text.ofNat (exactDigits b)).length - count ∧
      n = ofScaled c (exactExponent b + excess) ∧ c ≤ exactDigits b / 10 ^ excess + 1 := by
  have hmem := List.mem_of_find?_eq_some h
  simp only [roundings] at hmem
  split at hmem
  · simp at hmem
  · next hexcess =>
      obtain ⟨c, hc, rfl⟩ := List.mem_map.1 hmem
      exact ⟨_, c, Nat.pos_of_ne_zero hexcess, rfl, rfl, le_of_mem_neighbours hc⟩

/-- The shortest numeral was found by the search, or writes the exact value. -/
theorem shortest_cases (b : Nat) :
    (∃ count, 0 < count ∧ count ≤ 17 ∧ withDigits? b count = some (shortest b)) ∨
      withDigits? b 17 = none ∧ shortest b = ofScaled (exactDigits b) (exactExponent b) := by
  cases hfind : (List.range 17).findSome? fun i => withDigits? b (i + 1) with
  | none =>
      have hnone := List.findSome?_eq_none_iff.1 hfind 16 (by decide)
      exact Or.inr ⟨hnone, by simp [shortest, hfind]⟩
  | some n =>
      obtain ⟨i, hi, hfound⟩ := List.exists_of_findSome?_eq_some hfind
      refine Or.inl ⟨i + 1, Nat.succ_pos i, List.mem_range.1 hi, ?_⟩
      rw [(ofNumeral_shortest_of_find hfind).1]
      exact hfound

theorem normal_shortest (b : Nat) : (shortest b).Normal := by
  rcases shortest_cases b with ⟨count, -, -, hfound⟩ | ⟨-, hexact⟩
  · obtain ⟨excess, c, -, -, hn, -⟩ := exists_of_withDigits hfound
    rw [hn]
    exact normal_ofScaled _ _
  · rw [hexact]
    exact normal_ofScaled _ _

/-- The shortest numeral is read as the double it was made for. -/
theorem ofNumeral_shortest {b : Nat} (hb : 0 < b) (hfinite : b < infinity) :
    ofNumeral (shortest b) = b := by
  rcases shortest_cases b with ⟨count, -, -, hfound⟩ | ⟨-, hexact⟩
  · exact ofNumeral_of_withDigits hfound
  · refine ofNumeral_eq_of_value (normal_shortest b) hb hfinite ?_
    rw [hexact, value_ofScaled, value_exactDigits]

/-- The shortest numeral is none of those that are read as zero without being computed. -/
theorem shortest_computed {b : Nat} (hb : 0 < b) (hfinite : b < infinity) :
    (shortest b).digits ≠ [] ∧ -400 ≤ (shortest b).point := by
  have hread := ofNumeral_shortest hb hfinite
  rw [ofNumeral] at hread
  split at hread
  · omega
  · next hnot =>
      obtain ⟨hne, hpoint⟩ := not_or.1 hnot
      exact ⟨hne, not_lt.1 hpoint⟩

theorem digits_shortest_ne_nil {b : Nat} (hb : 0 < b) (hfinite : b < infinity) :
    (shortest b).digits ≠ [] :=
  (shortest_computed hb hfinite).1

theorem exactDigits_pos {b : Nat} (hb : 0 < b) : 0 < exactDigits b := by
  have hvalue := value_exactDigits b
  refine Nat.pos_of_ne_zero fun hzero => (value_pos hb).ne ?_
  rw [← hvalue, hzero, Nat.cast_zero, zero_mul]

/-- Seventeen digits tell all doubles apart: of these the ones nearest to the exact value are read
back, since half a unit of the last digit is less than what a double is rounded from. -/
theorem exists_withDigits_seventeen {b : Nat} (hb : 0 < b) (hfinite : b < infinity)
    (hlong : 17 < (Text.ofNat (exactDigits b)).length) : ∃ n, withDigits? b 17 = some n := by
  obtain ⟨excess, hexcess⟩ : ∃ excess, (Text.ofNat (exactDigits b)).length = excess + 17 :=
    ⟨_, (Nat.sub_add_cancel hlong.le).symm⟩
  have hpos : 0 < excess := by omega
  obtain ⟨c, hc⟩ : ∃ c, c = roundHalfEven (exactDigits b) (Nat.pow 10 excess) := ⟨_, rfl⟩
  have hread : ofNumeral (ofScaled c (exactExponent b + excess)) = b := by
    refine ofNumeral_of_near (normal_ofScaled _ _) hb hfinite ?_
    have hunit : (0 : ℚ) < 10 ^ (exactExponent b + excess) := by positivity
    have hpower : (0 : ℚ) < 10 ^ excess := by positivity
    have hvalue : value b =
        exactDigits b / 10 ^ excess * 10 ^ (exactExponent b + excess) := by
      rw [zpow_add₀ (by norm_num), zpow_natCast, mul_comm (10 ^ exactExponent b), ← mul_assoc,
        div_mul_cancel₀ _ hpower.ne', value_exactDigits]
    have hrounded : |(exactDigits b : ℚ) / 10 ^ excess - c| ≤ 1 / 2 := by
      have hnear := (isHalfEven_roundHalfEven (exactDigits b)
        (Nat.pow_pos (n := excess) (by decide : 0 < 10))).near
      rw [hc]
      exact_mod_cast hnear
    have hdigits : (10 : ℚ) ^ 16 ≤ exactDigits b / 10 ^ excess := by
      have hle := Text.ten_pow_le_of_pos (exactDigits_pos hb)
      rw [hexcess, Nat.add_sub_assoc (by decide), pow_add, mul_comm] at hle
      rw [le_div_iff₀ hpower]
      exact_mod_cast hle
    rw [value_ofScaled, hvalue, ← sub_mul, abs_mul, abs_of_pos hunit, abs_sub_comm,
      mul_div_right_comm]
    refine mul_lt_mul_of_pos_right (hrounded.trans_lt ?_) hunit
    linarith
  have hmem : ofScaled c (exactExponent b + excess) ∈ roundings b 17 := by
    have hrest : (Text.ofNat (exactDigits b)).length - 17 = excess := by omega
    simp only [roundings, hrest, if_neg hpos.ne']
    exact List.mem_map.2 ⟨c, hc ▸ roundHalfEven_mem_neighbours _ _, rfl⟩
  have hfound : (withDigits? b 17).isSome = true :=
    List.find?_isSome.2 ⟨_, hmem, by simpa using hread⟩
  exact Option.isSome_iff_exists.1 hfound

theorem length_ofDigits_le (digits : Text) (point : Int) :
    (ofDigits digits point).digits.length ≤ digits.length := by
  induction digits generalizing point with
  | nil =>
      simp [ofDigits]
  | cons d rest ih =>
      unfold ofDigits
      split
      · exact (ih _).trans (Nat.le_succ _)
      · obtain ⟨k, hk⟩ := exists_dropEndZeros rest
        have hlength := congrArg List.length hk
        simp only [List.length_append, List.length_replicate] at hlength
        simp only [List.length_cons]
        omega

/-- The shortest numeral has few digits, and it is no greater than twice the exact value. -/
theorem shortest_bounds {b : Nat} (hb : 0 < b) (hfinite : b < infinity) :
    (shortest b).digits.length ≤ 18 ∧ (shortest b).value ≤ 2 * value b := by
  have hpos := exactDigits_pos hb
  rcases shortest_cases b with ⟨count, hcount, hle, hfound⟩ | ⟨hnone, hexact⟩
  · obtain ⟨excess, c, hexcess, hlength, hn, hc⟩ := exists_of_withDigits hfound
    -- The full units are a positive number of at most as many digits as are searched with.
    have hunits : exactDigits b / 10 ^ excess < 10 ^ count := by
      refine Nat.div_lt_of_lt_mul ?_
      rw [← pow_add, show excess + count = (Text.ofNat (exactDigits b)).length by omega]
      exact Text.lt_ten_pow_length _
    have hone : 1 ≤ exactDigits b / 10 ^ excess := by
      refine (Nat.one_le_div_iff (by positivity)).2 ?_
      exact (Nat.pow_le_pow_right (by decide) (by omega)).trans (Text.ten_pow_le_of_pos hpos)
    constructor
    · have hdigits : c < 10 ^ (count + 1) := by
        rw [pow_succ]
        omega
      have hlength := Text.length_ofNat_le (Nat.succ_pos count) hdigits
      rw [hn]
      exact (length_ofDigits_le _ _).trans (hlength.trans (by omega))
    · have htwice : c ≤ 2 * (exactDigits b / 10 ^ excess) := by omega
      have hmul : c * 10 ^ excess ≤ 2 * exactDigits b := by
        calc c * 10 ^ excess ≤ 2 * (exactDigits b / 10 ^ excess) * 10 ^ excess :=
              Nat.mul_le_mul_right _ htwice
          _ = 2 * (exactDigits b / 10 ^ excess * 10 ^ excess) := Nat.mul_assoc _ _ _
          _ ≤ 2 * exactDigits b := Nat.mul_le_mul_left _ (Nat.div_mul_le_self _ _)
      have hmul' : (c : ℚ) * 10 ^ excess ≤ 2 * exactDigits b := by exact_mod_cast hmul
      rw [hn, value_ofScaled, ← value_exactDigits, zpow_add₀ (by norm_num), zpow_natCast,
        mul_comm (10 ^ exactExponent b), ← mul_assoc, ← mul_assoc]
      gcongr
  · have hshort : (Text.ofNat (exactDigits b)).length ≤ 17 := by
      by_contra hlong
      obtain ⟨n, hn⟩ := exists_withDigits_seventeen hb hfinite (not_le.1 hlong)
      simp [hn] at hnone
    rw [hexact, value_ofScaled, value_exactDigits]
    exact ⟨(length_ofDigits_le _ _).trans (by omega), by linarith [value_pos hb]⟩

end Double
end Stencil
