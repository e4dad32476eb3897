import Stencil.Proofs.Number.Order
import Stencil.Value.Arithmetic

/-!
# The order of values

What the comparison of values says about the numbers that they stand for.

**Argument.**  Two integers are compared as integers, and every other pair of numbers by the ranks
of the doubles, which is what their signs and their two strict comparisons come to
(`Double.compare_eq_compare_rank`).  So the comparison turns around with its operands, whatever
these are.  Rounding an
integer to a double may lose digits, and then three comparisons of two kinds need not agree; but an
integer of at most `2 ^ 53` is kept, so that among such integers and all doubles every pair is
compared by its ranks (`Number.compare_eq_rank`).  The ranks are integers, and what is known of
their order is known of the values.

**Results.**  `Value.compare_orders`.
-/

namespace Stencil

namespace Number

/-- The number is the double that is no number. -/
def isNaN : Number → Bool
  | .int _ => false
  | .double x => Double.isNaN x

/-- The number is the zero with a minus sign. -/
def IsNegativeZero : Number → Prop
  | .int _ => False
  | .double x => Double.IsNegativeZero x

/-- The extended real number that a number stands for. -/
noncomputable def toEReal : Number → EReal
  | .int n => ((n.toInt : ℝ) : EReal)
  | .double x => Double.toEReal x

/-- The number is a double, or an integer that is kept when it becomes one. -/
def IsExact : Number → Prop
  | .int n => n.toInt.natAbs ≤ 2 ^ 53
  | .double _ => True

/-- The order that is meant: the double that is no number is above all others, these are in the
order of the extended real numbers, and negative zero is below the other zeros. -/
def Below (a b : Number) : Prop :=
  a.isNaN = false ∧
    (b.isNaN = true ∨ a.toEReal < b.toEReal ∨
      a.toEReal = b.toEReal ∧ a.IsNegativeZero ∧ ¬ b.IsNegativeZero)

variable {a b c : Number}

theorem isNaN_toFloat (a : Number) : Double.isNaN a.toFloat = a.isNaN := by
  cases a with
  | int n =>
      exact Double.isNaN_ofInt n.toInt
  | double x =>
      rfl

/-- A number that is kept when it becomes a double stands for the same number then. -/
theorem toEReal_toFloat (h : a.IsExact) :
    Double.toEReal a.toFloat = a.toEReal ∧
      (Double.IsNegativeZero a.toFloat ↔ a.IsNegativeZero) := by
  cases a with
  | int n =>
      obtain ⟨hvalue, hzero⟩ := Double.toEReal_ofInt h
      exact ⟨hvalue, iff_of_false hzero id⟩
  | double x =>
      exact ⟨rfl, Iff.rfl⟩

/-- Two integers are compared as such, and any other two numbers by their ranks. -/
theorem compare_cases (a b : Number) :
    (∃ m n, a = .int m ∧ b = .int n ∧ a.compare b = Ord.compare m.toInt n.toInt) ∨
      a.compare b = Ord.compare (Double.rank a.toFloat) (Double.rank b.toFloat) := by
  cases a with
  | int m =>
      cases b with
      | int n => exact .inl ⟨m, n, rfl, rfl, rfl⟩
      | double y => exact .inr (Double.compare_eq_compare_rank _ _)
  | double x =>
      cases b <;> exact .inr (Double.compare_eq_compare_rank _ _)

theorem compare_self (a : Number) : a.compare a = .eq := by
  rcases compare_cases a a with ⟨m, n, hm, hn, h⟩ | h
  · obtain rfl := Number.int.inj (hm.symm.trans hn)
    rw [h, Std.ReflOrd.compare_self]
  · rw [h, Std.ReflOrd.compare_self]

/-- The comparison turns around with its operands. -/
theorem compare_swap (a b : Number) : b.compare a = (a.compare b).swap := by
  cases a with
  | int m =>
      cases b with
      | int n => exact Std.OrientedOrd.eq_swap
      | double y => exact Double.compare_swap _ _
  | double x =>
      cases b <;> exact Double.compare_swap _ _

/-- Integers that are kept when they become doubles are in the order of these. -/
theorem rank_ofInt_lt_iff {m n : Int} (hm : m.natAbs ≤ 2 ^ 53) (hn : n.natAbs ≤ 2 ^ 53) :
    Double.rank (Double.ofInt m) < Double.rank (Double.ofInt n) ↔ m < n := by
  obtain ⟨hm, hzero⟩ := Double.toEReal_ofInt hm
  obtain ⟨hn, -⟩ := Double.toEReal_ofInt hn
  rw [Double.rank_lt_rank_iff (Double.isNaN_ofInt m) (Double.isNaN_ofInt n), hm, hn]
  simp [hzero]

/-- Numbers that are kept when they become doubles are compared by their ranks. -/
theorem compare_eq_rank (ha : a.IsExact) (hb : b.IsExact) :
    a.compare b = Ord.compare (Double.rank a.toFloat) (Double.rank b.toFloat) := by
  rcases compare_cases a b with ⟨m, n, rfl, rfl, h⟩ | h
  · have hlt := rank_ofInt_lt_iff ha hb
    rw [h]
    rcases lt_trichotomy m.toInt n.toInt with hmn | hmn | hmn
    · rw [compare_lt_iff_lt.2 hmn]
      exact (compare_lt_iff_lt.2 (hlt.2 hmn)).symm
    · rw [toFloat, toFloat, hmn, Std.ReflOrd.compare_self, Std.ReflOrd.compare_self]
    · rw [compare_gt_iff_gt.2 hmn]
      exact (compare_gt_iff_gt.2 ((rank_ofInt_lt_iff hb ha).2 hmn)).symm
  · exact h

/-- The double that is no number equals itself and is above all other numbers. -/
theorem compare_of_isNaN (a : Number) (hb : b.isNaN = true) :
    a.compare b = if a.isNaN then .eq else .lt := by
  have hrank : a.compare b = Ord.compare (Double.rank a.toFloat) (Double.rank b.toFloat) := by
    rcases compare_cases a b with ⟨m, n, -, rfl, -⟩ | h
    · exact absurd hb Bool.false_ne_true
    · exact h
  have hb' := (isNaN_toFloat b).trans hb
  rw [hrank]
  cases ha : a.isNaN with
  | true =>
      have ha' := (isNaN_toFloat a).trans ha
      rw [Double.eq_nan_of_isNaN ha', Double.eq_nan_of_isNaN hb', Std.ReflOrd.compare_self]
      rfl
  | false =>
      have ha' := (isNaN_toFloat a).trans ha
      exact compare_lt_iff_lt.2 (Double.rank_lt_rank_of_isNaN ha' hb')

/-- The comparison is the order that is meant. -/
theorem compare_eq_lt_iff (ha : a.IsExact) (hb : b.IsExact) : a.compare b = .lt ↔ a.Below b := by
  unfold Below
  cases hnb : b.isNaN with
  | true =>
      rw [compare_of_isNaN a hnb]
      cases a.isNaN <;> simp
  | false =>
      cases hna : a.isNaN with
      | true =>
          rw [compare_swap b a, compare_of_isNaN b hna, hnb]
          simp
      | false =>
          obtain ⟨ha', hza⟩ := toEReal_toFloat ha
          obtain ⟨hb', hzb⟩ := toEReal_toFloat hb
          rw [compare_eq_rank ha hb, compare_lt_iff_lt, Double.rank_lt_rank_iff
            ((isNaN_toFloat a).trans hna) ((isNaN_toFloat b).trans hnb), ha', hb', hza, hzb]
          simp

/-- Numbers are equal in the order exactly if they become the same double. -/
theorem compare_eq_eq_iff (ha : a.IsExact) (hb : b.IsExact) :
    a.compare b = .eq ↔ a.toFloat = b.toFloat := by
  rw [compare_eq_rank ha hb, compare_eq_iff_eq, Double.rank_injective.eq_iff]

theorem compare_isLE_trans (ha : a.IsExact) (hb : b.IsExact) (hc : c.IsExact)
    (hab : (a.compare b).isLE = true) (hbc : (b.compare c).isLE = true) :
    (a.compare c).isLE = true := by
  rw [compare_eq_rank ha hb] at hab
  rw [compare_eq_rank hb hc] at hbc
  rw [compare_eq_rank ha hc]
  exact Std.TransOrd.isLE_trans hab hbc

end Number

namespace Value

open Number

/-- A value is compared with another one and found to be at most as great. -/
def AtMost (x y : Value) : Prop := ∃ o, x.compare y = .ok o ∧ o.isLE = true

variable {x y z : Value} {a b c : Number}

theorem compare_of_toNumber (hx : x.toNumber = .ok a) (hy : y.toNumber = .ok b) :
    x.compare y = .ok (a.compare b) := by
  rw [Value.compare, hx, hy]
  rfl

theorem atMost_iff (hx : x.toNumber = .ok a) (hy : y.toNumber = .ok b) :
    x.AtMost y ↔ (a.compare b).isLE = true := by
  simp [AtMost, compare_of_toNumber hx hy]

/-- What the comparison of values that stand for numbers says.

* Of any values it is reflexive, turns around with its operands, and puts the double that is no
  number on top.
* Of integers it is the order of the integers.
* Of doubles and integers of at most `2 ^ 53` it is transitive as well, it is the order that is
  meant, and it is indifferent only between values that become the same double.
* Negative zero is below the other zeros. -/
theorem compare_orders (hx : x.toNumber = .ok a) (hy : y.toNumber = .ok b)
    (hz : z.toNumber = .ok c) :
    x.compare x = .ok .eq ∧
    (∃ o, x.compare y = .ok o ∧ y.compare x = .ok o.swap) ∧
    (b.isNaN = true → x.compare y = .ok (if a.isNaN then .eq else .lt)) ∧
    (∀ m n, a = .int m → b = .int n →
      (x.compare y = .ok .lt ↔ m.toInt < n.toInt) ∧ (x.compare y = .ok .eq ↔ m = n)) ∧
    (a.IsExact → b.IsExact → c.IsExact →
      (x.AtMost y → y.AtMost z → x.AtMost z) ∧
      (x.compare y = .ok .lt ↔ a.Below b) ∧
      (x.compare y = .ok .eq ↔ a.toFloat = b.toFloat)) ∧
    (a = .double (Double.ofMagnitude true 0) →
      b = .double (Double.ofMagnitude false 0) ∨ b = .int 0 → x.compare y = .ok .lt) := by
  rw [compare_of_toNumber hx hx, compare_of_toNumber hx hy, compare_of_toNumber hy hx,
    atMost_iff hx hy, atMost_iff hy hz, atMost_iff hx hz]
  simp only [Except.ok.injEq]
  refine ⟨compare_self a, ⟨_, rfl, compare_swap a b⟩, compare_of_isNaN a, ?_, ?_, ?_⟩
  · rintro m n rfl rfl
    exact ⟨compare_lt_iff_lt, compare_eq_iff_eq.trans Int64.toInt_inj⟩
  · intro ha hb hc
    exact ⟨compare_isLE_trans ha hb hc, compare_eq_lt_iff ha hb, compare_eq_eq_iff ha hb⟩
  · rintro rfl (rfl | rfl) <;> decide +kernel

/-- Past `2 ^ 53` three comparisons need not agree. -/
example :
    let power := Number.double (Double.ofInt 9007199254740992)
    Number.compare (.int 9007199254740993) power = .eq ∧
      Number.compare power (.int 9007199254740992) = .eq ∧
      Number.compare (.int 9007199254740993) (.int 9007199254740992) = .gt := by decide +kernel

/-- Negative zero as a text, the absent value and the double that is no number are in ascending
order. -/
theorem compare_orders_ascending :
    (Value.text "-0.0".toText).compare .absent = .ok .lt ∧
    (Value.absent).compare (.number (.double Double.nan)) = .ok .lt ∧
    (Value.text "-0.0".toText).AtMost (.number (.double Double.nan)) := by
  have htext : (Value.text "-0.0".toText).toNumber =
      .ok (.double (Double.ofMagnitude true 0)) := by rfl
  have habsent : Value.absent.toNumber = .ok (.int 0) := rfl
  have hnan : (Value.number (.double Double.nan)).toNumber = .ok (.double Double.nan) := rfl
  have hisNaN : (Number.double Double.nan).isNaN = true := by decide +kernel
  have hexact : (Number.int 0).IsExact := Nat.zero_le _
  obtain ⟨-, -, -, -, hordered, hzero⟩ := compare_orders htext habsent hnan
  obtain ⟨-, -, htop, -⟩ := compare_orders habsent hnan hnan
  have hfirst := hzero rfl (.inr rfl)
  have hsecond := htop hisNaN
  exact ⟨hfirst, hsecond, (hordered trivial hexact trivial).1 ⟨_, hfirst, rfl⟩ ⟨_, hsecond, rfl⟩⟩

end Value
end Stencil
