import Mathlib.Algebra.Order.Field.Power
import Mathlib.Data.Int.Log
import Mathlib.Data.Rat.Floor
import Mathlib.Tactic.FieldSimp
import Mathlib.Tactic.GCongr
import Mathlib.Tactic.Linarith
import Mathlib.Tactic.Positivity
import Mathlib.Tactic.Ring
import Stencil.Number.Double

/-!
# The double nearest to a ratio

`Double.nearest` finds the binary logarithm of a ratio, and rounds the ratio to the units of the
doubles of that size.

**Results.**
* `isHalfEven_roundHalfEven`: a quotient is rounded to the nearest integer, a half to the even one.
* `ratioLog_eq_log`: the logarithm that is found is the one of the rational number.
* `nearest_of_near`: a ratio that is near enough to the value of a double is rounded to that double.
* `nearest_of_exact`: a ratio that is the value of a double is rounded to that double.
-/

namespace Stencil

/-- The integer is nearest to the number, and even if another one is as near. -/
structure IsHalfEven (r : ℚ) (u : Nat) : Prop where
  near : |r - u| ≤ 1 / 2
  even : |r - u| = 1 / 2 → Even u

theorem isHalfEven_down {q : Nat} {t : ℚ} (h₀ : 0 ≤ t) (h : t ≤ 1 / 2)
    (heven : t = 1 / 2 → Even q) : IsHalfEven (q + t) q := by
  have habs : |(q : ℚ) + t - q| = t := by rw [add_sub_cancel_left, abs_of_nonneg h₀]
  exact ⟨habs.trans_le h, fun hhalf => heven (habs.symm.trans hhalf)⟩

theorem isHalfEven_up {q : Nat} {t : ℚ} (h₁ : t ≤ 1) (h : 1 / 2 ≤ t)
    (hodd : t = 1 / 2 → Even (q + 1)) : IsHalfEven (q + t) (q + 1 : Nat) := by
  have habs : |(q : ℚ) + t - (q + 1 : Nat)| = 1 - t := by
    rw [Nat.cast_add_one, add_sub_add_left_eq_sub, abs_sub_comm, abs_of_nonneg (by linarith)]
  refine ⟨habs.trans_le (by linarith), fun hhalf => hodd ?_⟩
  have hrest := habs.symm.trans hhalf
  linarith

/-- The quotient is rounded to the nearest integer, a half to the even one. -/
theorem isHalfEven_roundHalfEven (n : Nat) {d : Nat} (hd : 0 < d) :
    IsHalfEven (n / d) (roundHalfEven n d) := by
  have hpos : (0 : ℚ) < d := by exact_mod_cast hd
  have hn : (n : ℚ) = d * (n / d : Nat) + (n % d : Nat) := by
    exact_mod_cast (Nat.div_add_mod n d).symm
  have hquotient : (n : ℚ) / d = (n / d : Nat) + ((n % d : Nat) : ℚ) / d := by
    conv_lhs => rw [hn, add_div, mul_div_cancel_left₀ _ hpos.ne']
  have hlt : n % d < d := Nat.mod_lt n hd
  rw [hquotient]
  simp only [roundHalfEven]
  generalize n / d = q at *
  generalize n % d = rest at *
  have hhalf : (rest : ℚ) / d = 1 / 2 ↔ 2 * rest = d := by
    rw [div_eq_div_iff hpos.ne' two_ne_zero, mul_comm, one_mul]
    exact_mod_cast Iff.rfl
  have hle : (rest : ℚ) / d ≤ 1 / 2 ↔ 2 * rest ≤ d := by
    rw [div_le_div_iff₀ hpos two_pos, mul_comm, one_mul]
    exact_mod_cast Iff.rfl
  split
  · next hdown =>
      refine isHalfEven_down (by positivity) (hle.2 (by omega)) fun htie => ?_
      have htwice := hhalf.1 htie
      exact Nat.even_iff.2 (by omega)
  · next hup =>
      have hone : (rest : ℚ) / d ≤ 1 := by
        rw [div_le_one hpos]
        exact_mod_cast hlt.le
      refine isHalfEven_up hone ?_ fun htie => ?_
      · rcases eq_or_ne (2 * rest) d with heq | hne
        · exact (hhalf.2 heq).ge
        · exact (not_le.1 (mt hle.1 (by omega))).le
      · have htwice := hhalf.1 htie
        exact Nat.even_iff.2 (by omega)

/-- An integer that is less than a half away is rounded to. -/
theorem roundHalfEven_of_near {n d m : Nat} (hd : 0 < d) (h : |(n : ℚ) / d - m| < 1 / 2) :
    roundHalfEven n d = m := by
  obtain ⟨hlow, hhigh⟩ := abs_lt.1 h
  obtain ⟨hlow', hhigh'⟩ := abs_le.1 (isHalfEven_roundHalfEven n hd).near
  have hle : (roundHalfEven n d : ℚ) < m + 1 := by linarith
  have hge : (m : ℚ) < roundHalfEven n d + 1 := by linarith
  have hle' : roundHalfEven n d < m + 1 := by exact_mod_cast hle
  have hge' : m < roundHalfEven n d + 1 := by exact_mod_cast hge
  omega

/-- A negative exponent is moved to the other side. -/
theorem zpow_mul_toNat {a : ℚ} (ha : a ≠ 0) (k : ℤ) : a ^ k * a ^ (-k).toNat = a ^ k.toNat := by
  rcases le_total 0 k with h | h
  · obtain ⟨n, rfl⟩ := Int.eq_ofNat_of_zero_le h
    simp
  · obtain ⟨n, hn⟩ := Int.eq_ofNat_of_zero_le (Int.neg_nonneg.2 h)
    obtain rfl : k = -(n : ℤ) := by omega
    simp [ha]

namespace Double

/-- The number that a finite magnitude stands for. -/
def value (b : Nat) : ℚ := significand b * 2 ^ scale b

/-- Comparing with a power of two, without a division. -/
theorem two_zpow_le_div_iff {n d : Nat} (hd : 0 < d) (k : ℤ) :
    d * Nat.pow 2 k.toNat ≤ n * Nat.pow 2 (-k).toNat ↔ (2 : ℚ) ^ k ≤ n / d := by
  have hd' : (0 : ℚ) < d := by exact_mod_cast hd
  have hpow : (0 : ℚ) < 2 ^ (-k).toNat := by positivity
  rw [le_div_iff₀ hd', ← mul_le_mul_iff_left₀ hpow, mul_right_comm, zpow_mul_toNat two_ne_zero]
  rw [mul_comm ((2 : ℚ) ^ k.toNat)]
  exact_mod_cast Iff.rfl

theorem log_eq_iff {r : ℚ} (hr : 0 < r) {k : ℤ} :
    Int.log 2 r = k ↔ (2 : ℚ) ^ k ≤ r ∧ r < 2 ^ (k + 1) := by
  have hle := Int.zpow_le_iff_le_log (R := ℚ) (b := 2) (by decide) (x := k) hr
  have hlt := Int.lt_zpow_iff_log_lt (R := ℚ) (b := 2) (by decide) (x := k + 1) hr
  push_cast at hle hlt
  rw [hle, hlt]
  omega

/-- The logarithm that is found is the one of the rational number. -/
theorem ratioLog_eq_log {n d : Nat} (hn : 0 < n) (hd : 0 < d) :
    ratioLog n d = Int.log 2 ((n : ℚ) / d) := by
  have hn' : (0 : ℚ) < n := by exact_mod_cast hn
  have hd' : (0 : ℚ) < d := by exact_mod_cast hd
  have hr : (0 : ℚ) < n / d := div_pos hn' hd'
  have hnle : (2 : ℚ) ^ n.log2 ≤ n := by exact_mod_cast Nat.log2_self_le hn.ne'
  have hnlt : (n : ℚ) < 2 ^ (n.log2 + 1) := by exact_mod_cast Nat.lt_log2_self (n := n)
  have hdle : (2 : ℚ) ^ d.log2 ≤ d := by exact_mod_cast Nat.log2_self_le hd.ne'
  have hdlt : (d : ℚ) < 2 ^ (d.log2 + 1) := by exact_mod_cast Nat.lt_log2_self (n := d)
  -- The ratio lies between the quotients of the powers around its two parts.
  have hlower : (2 : ℚ) ^ ((n.log2 : ℤ) - d.log2 - 1) ≤ n / d := by
    rw [le_div_iff₀ hd']
    calc (2 : ℚ) ^ ((n.log2 : ℤ) - d.log2 - 1) * d
        ≤ 2 ^ ((n.log2 : ℤ) - d.log2 - 1) * 2 ^ (d.log2 + 1) := by gcongr
      _ = 2 ^ n.log2 := by
          rw [← zpow_natCast, ← zpow_natCast, ← zpow_add₀ two_ne_zero]
          congr 1
          push_cast
          ring
      _ ≤ n := hnle
  have hupper : (n : ℚ) / d < 2 ^ ((n.log2 : ℤ) - d.log2 + 1) := by
    rw [div_lt_iff₀ hd']
    calc (n : ℚ) < 2 ^ (n.log2 + 1) := hnlt
      _ = 2 ^ ((n.log2 : ℤ) - d.log2 + 1) * 2 ^ d.log2 := by
          rw [← zpow_natCast, ← zpow_natCast, ← zpow_add₀ two_ne_zero]
          congr 1
          push_cast
          ring
      _ ≤ 2 ^ ((n.log2 : ℤ) - d.log2 + 1) * d := by gcongr
  symm
  unfold ratioLog
  simp only [two_zpow_le_div_iff hd]
  split
  · next hle =>
      exact (log_eq_iff hr).2 ⟨hle, hupper⟩
  · next hlt =>
      refine (log_eq_iff hr).2 ⟨hlower, ?_⟩
      rw [sub_add_cancel]
      exact not_le.1 hlt

/-- The significand of a finite magnitude that is not zero is positive, and where its unit is not
the smallest one, it has all its bits. -/
theorem significand_bounds {b : Nat} (hb : 0 < b) :
    0 < significand b ∧ significand b < 2 ^ 53 ∧
      (scale b = -1074 ∨ -1074 < scale b ∧ 2 ^ 52 ≤ significand b) := by
  have hscale : scale b = (max (b / 2 ^ 52) 1 : Nat) - 1075 := rfl
  have hsig : significand b = if b < 2 ^ 52 then b else 2 ^ 52 + b % 2 ^ 52 := rfl
  rw [hscale, hsig]
  split <;> omega

/-- A magnitude is its significand, counted on from the unit. -/
theorem eq_of_significand (b : Nat) : (scale b + 1074).toNat * 2 ^ 52 + significand b = b := by
  have hscale : scale b = (max (b / 2 ^ 52) 1 : Nat) - 1075 := rfl
  have hsig : significand b = if b < 2 ^ 52 then b else 2 ^ 52 + b % 2 ^ 52 := rfl
  rw [hscale, hsig]
  split <;> omega

theorem value_pos {b : Nat} (hb : 0 < b) : 0 < value b := by
  have hpos : (0 : ℚ) < significand b := by exact_mod_cast (significand_bounds hb).1
  unfold value
  positivity

/-- A ratio in units of a power of two. -/
theorem ratio_div_zpow (n d : Nat) (q : ℤ) :
    ((n * Nat.pow 2 (-q).toNat : Nat) : ℚ) / (d * Nat.pow 2 q.toNat : Nat) = n / d / 2 ^ q := by
  have hpow : (2 : ℚ) ^ (-q).toNat ≠ 0 := by positivity
  show ((n * 2 ^ (-q).toNat : Nat) : ℚ) / (d * 2 ^ q.toNat : Nat) = _
  push_cast
  rw [← zpow_mul_toNat two_ne_zero q, ← mul_assoc, mul_div_mul_right _ _ hpow, div_div]

/-- A ratio is rounded to a magnitude that it is near to.  Below a power of two the doubles are
twice as dense, so that the ratio may have the next smaller unit; it is rounded up to the power
then. -/
theorem nearest_of_near {b n d : Nat} (hb : 0 < b) (hfinite : b < infinity) (hd : 0 < d)
    (h : |(n : ℚ) / d - value b| < value b / 2 ^ 54) : nearest n d = b := by
  obtain ⟨hpos, hlt, hnormal⟩ := significand_bounds hb
  have hsame := eq_of_significand b
  have hd' : (0 : ℚ) < d := by exact_mod_cast hd
  have hunit : (0 : ℚ) < 2 ^ scale b := by positivity
  have hm : (significand b : ℚ) + 1 ≤ 2 ^ 53 := by exact_mod_cast hlt
  have hm' : (1 : ℚ) ≤ significand b := by exact_mod_cast hpos
  -- The ratio in units of the last bit.
  obtain ⟨r, hr⟩ : ∃ r : ℚ, r = n / d / 2 ^ scale b := ⟨_, rfl⟩
  have hratio : (n : ℚ) / d = r * 2 ^ scale b := by rw [hr, div_mul_cancel₀ _ hunit.ne']
  have hnear : |r - significand b| < significand b / 2 ^ 54 := by
    have hscaled : (n : ℚ) / d - value b = (r - significand b) * 2 ^ scale b := by
      rw [hratio, value, sub_mul]
    rw [hscaled, abs_mul, abs_of_pos hunit, value, mul_div_right_comm] at h
    exact lt_of_mul_lt_mul_right h hunit.le
  obtain ⟨hlow, hhigh⟩ := abs_lt.1 hnear
  have hr0 : 0 < r := by linarith
  have hn : 0 < n := by
    have hprod : (0 : ℚ) < n / d := hratio ▸ mul_pos hr0 hunit
    exact_mod_cast (div_pos_iff_of_pos_right hd').1 hprod
  have hlog : ratioLog n d = Int.log 2 r + scale b := by
    rw [ratioLog_eq_log hn hd, hratio, log_eq_iff (mul_pos hr0 hunit)]
    obtain ⟨hle, hlt⟩ := (log_eq_iff hr0).1 rfl
    constructor
    · rw [zpow_add₀ two_ne_zero]
      gcongr
    · rw [add_right_comm, zpow_add₀ two_ne_zero]
      gcongr
  have hlogle : Int.log 2 r ≤ 52 := by
    have hlt : r < 2 ^ (53 : ℤ) := by norm_num at hm ⊢; linarith
    have := (Int.lt_zpow_iff_log_lt (R := ℚ) (b := 2) (by decide) (x := 53) hr0).1 hlt
    omega
  have hround (q : ℤ) (u : Nat) (hu : |r * 2 ^ (scale b - q) - u| < 1 / 2) :
      roundHalfEven (n * Nat.pow 2 (-q).toNat) (d * Nat.pow 2 q.toNat) = u := by
    refine roundHalfEven_of_near (Nat.mul_pos hd (Nat.pow_pos (by decide))) ?_
    rwa [ratio_div_zpow, hratio, mul_div_assoc, ← zpow_sub₀ two_ne_zero]
  unfold nearest
  by_cases hfull : scale b = -1074 ∨ 52 ≤ Int.log 2 r
  · have hunit : max (ratioLog n d - 52) (-1074) = scale b := by omega
    have hrounded := hround (scale b) (significand b) (by
      rw [sub_self, zpow_zero, mul_one]
      exact hnear.trans_le (by linarith))
    simp only [hunit, hrounded]
    show min ((scale b + 1074).toNat * 2 ^ 52 + significand b) infinity = b
    rw [hsame]
    exact Nat.min_eq_left hfinite.le
  · obtain ⟨hscale, hshort⟩ := not_or.1 hfull
    obtain ⟨hscale, hbits⟩ := hnormal.resolve_left hscale
    have hbits' : (2 : ℚ) ^ 52 ≤ significand b := by exact_mod_cast hbits
    have hbelow : r < 2 ^ 52 := by
      have hlt := (Int.lt_zpow_iff_log_lt (R := ℚ) (b := 2) (by decide) (x := 52) hr0).2
        (by omega)
      exact_mod_cast hlt
    have hleast : (significand b : ℚ) < 2 ^ 52 + 1 := by linarith
    have hpower : significand b = 2 ^ 52 := by
      have hlt : significand b < 2 ^ 52 + 1 := by exact_mod_cast hleast
      omega
    have hhalf : (2 : ℚ) ^ 51 ≤ r := by linarith
    have hloge : 51 ≤ Int.log 2 r :=
      (Int.zpow_le_iff_le_log (R := ℚ) (b := 2) (by decide) (x := 51) hr0).1
        (by exact_mod_cast hhalf)
    have hunit : max (ratioLog n d - 52) (-1074) = scale b - 1 := by omega
    have hrounded := hround (scale b - 1) (significand b * 2) (by
      have hdouble : r * 2 - (significand b * 2 : Nat) = (r - significand b) * 2 := by
        push_cast
        ring
      have hpower' : (significand b : ℚ) = 2 ^ 52 := by exact_mod_cast hpower
      rw [sub_sub_cancel, zpow_one, hdouble, abs_mul, abs_two]
      linarith)
    simp only [hunit, hrounded]
    show min ((scale b - 1 + 1074).toNat * 2 ^ 52 + significand b * 2) infinity = b
    have hstep : (scale b - 1 + 1074).toNat + 1 = (scale b + 1074).toNat := by omega
    have hcarried : (scale b - 1 + 1074).toNat * 2 ^ 52 + significand b * 2 = b := by
      refine Eq.trans ?_ hsame
      rw [← hstep, Nat.succ_mul, mul_two, ← add_assoc, hpower]
    rw [hcarried]
    exact Nat.min_eq_left hfinite.le

/-- A ratio that is the value of a finite magnitude is rounded to that magnitude. -/
theorem nearest_of_exact {b n d : Nat} (hb : 0 < b) (hfinite : b < infinity) (hd : 0 < d)
    (h : (n : ℚ) / d = value b) : nearest n d = b := by
  refine nearest_of_near hb hfinite hd ?_
  rw [h, sub_self, abs_zero]
  exact div_pos (value_pos hb) (by positivity)

end Double
end Stencil
