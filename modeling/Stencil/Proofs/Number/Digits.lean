import Mathlib.Data.List.DropRight
import Mathlib.Data.Nat.Digits.Defs
import Stencil.Number.Basic

/-!
# Texts of digits

Reading back integers and decimal numerals from their texts.

**Argument.**  A numeral that is written around a point, or with a power of ten, is read as the
digits that stand before and after the point, with zeros at their ends.  These zeros do not count,
which is what `Numeral.ofDigits` says of them.

**Results.**
* `integer?_ofInt` and `int64?_ofInt`: an integer is read back from its text.
* `ofText?_numeralText`: a numeral in its one form is read back from its text.
-/

namespace Stencil

theorem Text.isDigit_of_mem_ofNat {c : CodePoint} {n : Nat} (h : c ∈ Text.ofNat n) :
    c.isDigit = true := by
  obtain ⟨d, hd, rfl⟩ := List.mem_map.1 h
  exact Nat.isDigit_of_mem_toDigits (by decide) (by decide) hd

theorem Text.ofNat_ne_nil (n : Nat) : Text.ofNat n ≠ [] :=
  List.map_eq_nil_iff.not.2 Nat.toDigits_ne_nil

namespace Text

/-- Digits after others are units of a smaller size. -/
theorem digitsValue_append (s t : Text) :
    digitsValue (s ++ t) = 10 ^ t.length * digitsValue s + digitsValue t := by
  have hfrom : ∀ (t : Text) (n : Nat), t.foldl (fun n d => 10 * n + d.digit) n =
      10 ^ t.length * n + digitsValue t := by
    intro t
    induction t with
    | nil =>
        simp [digitsValue]
    | cons d rest ih =>
        intro n
        rw [digitsValue, List.foldl_cons, List.foldl_cons, ih, ih (10 * 0 + d.digit),
          List.length_cons, pow_succ]
        ring
  rw [digitsValue, List.foldl_append, hfrom]
  rfl

theorem digitsValue_cons (d : CodePoint) (rest : Text) :
    digitsValue (d :: rest) = 10 ^ rest.length * d.digit + digitsValue rest := by
  have happend := digitsValue_append [d] rest
  rwa [show digitsValue [d] = d.digit from Nat.zero_add _] at happend

theorem digitsValue_zeros (k : Nat) : digitsValue (List.replicate k '0') = 0 := by
  induction k with
  | zero => rfl
  | succ k ih => rw [List.replicate_succ, digitsValue_cons, ih]; rfl

/-- The digits of a number write it. -/
theorem digitsValue_ofNat (n : Nat) : digitsValue (ofNat n) = n := by
  have hchars : digitsValue (ofNat n) = Nat.ofDigitChars 10 (Nat.toDigits 10 n) 0 :=
    List.foldl_map
  rw [hchars, Nat.ofDigitChars_ten_toDigits]

end Text

/-- A part that is as long as possible ends where another character follows. -/
theorem Text.span_append {f : CodePoint → Bool} {s t : Text} (hs : ∀ c ∈ s, f c = true)
    (ht : ∀ c ∈ t.head?, f c = false) :
    (s ++ t).takeWhile f = s ∧ (s ++ t).dropWhile f = t := by
  rw [List.takeWhile_append_of_pos hs, List.dropWhile_append_of_pos hs]
  cases t with
  | nil =>
      simp
  | cons c rest =>
      have hc : f c = false := ht c rfl
      simp [hc]

namespace Numeral

theorem digit_le_nine {c : CodePoint} (h : c.isDigit = true) : c.digit ≤ 9 := by
  cases c with
  | surrogate n =>
      exact Bool.noConfusion h
  | char c =>
      simp only [CodePoint.isDigit, Char.isDigit, Bool.and_eq_true, decide_eq_true_eq] at h
      have hle : c.toNat ≤ 57 := h.2
      have hdigit : (CodePoint.char c).digit = c.toNat - 48 := rfl
      omega

theorem digitsValue_lt {digits : Text} (h : ∀ c ∈ digits, c.isDigit = true) :
    Text.digitsValue digits < 10 ^ digits.length := by
  induction digits with
  | nil =>
      simp
  | cons c rest ih =>
      obtain ⟨hdigit, hdigits⟩ := List.forall_mem_cons.1 h
      have hc := digit_le_nine hdigit
      have hrest := ih hdigits
      have hstep : 10 ^ rest.length * c.digit ≤ 10 ^ rest.length * 9 :=
        Nat.mul_le_mul_left _ hc
      rw [Text.digitsValue_cons, List.length_cons, pow_succ]
      omega

end Numeral

namespace Text

/-- A number has fewer digits than a power of ten above it. -/
theorem length_ofNat_le {n k : Nat} (hk : 0 < k) (h : n < 10 ^ k) : (ofNat n).length ≤ k :=
  (List.length_map _).trans_le (Nat.toDigits_length 10 n k hk h)

theorem lt_ten_pow_length (n : Nat) : n < 10 ^ (ofNat n).length := by
  have hdigits : ∀ c ∈ ofNat n, c.isDigit = true := fun _ hc => isDigit_of_mem_ofNat hc
  have hlt := Numeral.digitsValue_lt hdigits
  rwa [digitsValue_ofNat] at hlt

/-- A 64-bit integer has few digits. -/
theorem length_ofNat_natAbs_le (n : Int64) : (ofNat n.toInt.natAbs).length ≤ 19 := by
  have hlow := n.le_toInt
  have hhigh := n.toInt_lt
  exact length_ofNat_le (by decide) (by omega)

theorem ten_pow_le_of_pos {n : Nat} (hn : 0 < n) : 10 ^ ((ofNat n).length - 1) ≤ n := by
  by_contra hlt
  rcases Nat.eq_zero_or_pos ((ofNat n).length - 1) with hzero | hpos
  · rw [hzero] at hlt
    omega
  · have hle := length_ofNat_le hpos (not_le.1 hlt)
    omega

end Text

namespace Numeral

theorem splitSign_of_isDigit {c : CodePoint} (h : c.isDigit = true) (rest : Text) :
    splitSign (c :: rest) = (false, c :: rest) := by
  unfold splitSign
  split
  · next heq =>
      obtain ⟨rfl, -⟩ := List.cons.inj heq
      exact absurd h (by decide)
  · next heq =>
      obtain ⟨rfl, -⟩ := List.cons.inj heq
      exact absurd h (by decide)
  · rfl

theorem splitSign_ofNat (n : Nat) : splitSign (Text.ofNat n) = (false, Text.ofNat n) := by
  cases hdigits : Text.ofNat n with
  | nil =>
      exact absurd hdigits (Text.ofNat_ne_nil n)
  | cons c rest =>
      refine splitSign_of_isDigit (Text.isDigit_of_mem_ofNat (n := n) ?_) rest
      rw [hdigits]
      exact List.mem_cons_self

/-- An integer is read back from its text. -/
theorem integer?_ofInt (n : Int) : integer? (Text.ofInt n) = some n := by
  have hdigits : Text.ofNat n.natAbs ≠ [] ∧ (Text.ofNat n.natAbs).all CodePoint.isDigit = true :=
    ⟨Text.ofNat_ne_nil _, List.all_eq_true.2 fun _ hc => Text.isDigit_of_mem_ofNat hc⟩
  have hvalue := Text.digitsValue_ofNat n.natAbs
  unfold Text.ofInt
  split
  · simp only [integer?, splitSign, if_pos hdigits, hvalue, if_true, Option.some.injEq]
    omega
  · rw [integer?, splitSign_ofNat]
    simp only [if_pos hdigits, hvalue, Bool.false_eq_true, if_false, Option.some.injEq]
    omega

theorem digitCount_ofInt (n : Int) : digitCount (Text.ofInt n) = (Text.ofNat n.natAbs).length := by
  unfold Text.ofInt
  split
  · rfl
  · rw [digitCount, splitSign_ofNat]

end Numeral

/-- A 64-bit integer is read back from its text. -/
theorem Number.int64?_ofInt (n : Int64) : int64? (Text.ofInt n.toInt) = .ok (some n) := by
  have hlower := n.minValue_le_toInt
  have hupper := n.toInt_le
  have hfew : Numeral.digitCount (Text.ofInt n.toInt) ≤ digitLimit := by
    rw [Numeral.digitCount_ofInt]
    exact (Text.length_ofNat_natAbs_le n).trans (by decide)
  simp only [int64?, Numeral.integer?_ofInt, if_neg hfew.not_gt, if_pos (And.intro hlower hupper),
    Int64.ofInt_toInt]

namespace Numeral

theorem dropEndZeros_subset (digits : Text) : dropEndZeros digits ⊆ digits := by
  intro c hc
  have hmem := (List.dropWhile_sublist _).subset (List.mem_reverse.1 hc)
  exact List.mem_reverse.1 hmem

theorem dropEndZeros_dropEndZeros (digits : Text) :
    dropEndZeros (dropEndZeros digits) = dropEndZeros digits := by
  simp [dropEndZeros, List.dropWhile_idempotent]

/-- A numeral in its one form: its digits are digits, and no zero is at either end. -/
structure Normal (n : Numeral) : Prop where
  isDigit : ∀ c ∈ n.digits, c.isDigit = true
  ofDigits_eq : ofDigits n.digits n.point = n

theorem normal_ofDigits {digits : Text} (h : ∀ c ∈ digits, c.isDigit = true) (point : Int) :
    (ofDigits digits point).Normal := by
  induction digits generalizing point with
  | nil =>
      exact ⟨by simp [ofDigits], rfl⟩
  | cons d rest ih =>
      obtain ⟨hdigit, hrest⟩ := List.forall_mem_cons.1 h
      by_cases hd : d = '0'
      · rw [hd, ofDigits_zero_cons]
        exact ih hrest _
      · have hform : ofDigits (d :: rest) point = ⟨d :: dropEndZeros rest, point⟩ := by
          simp [ofDigits, hd]
        rw [hform]
        constructor
        · intro c hc
          rcases List.mem_cons.1 hc with rfl | hc
          · exact hdigit
          · exact hrest c (dropEndZeros_subset rest hc)
        · simp [ofDigits, hd, dropEndZeros_dropEndZeros]

theorem normal_ofScaled (coefficient : Nat) (exponent : Int) :
    (ofScaled coefficient exponent).Normal :=
  normal_ofDigits (fun _ hc => Text.isDigit_of_mem_ofNat hc) _

theorem ofDigits_zeros_append (k : Nat) (digits : Text) (point : Int) :
    ofDigits (List.replicate k (.char '0') ++ digits) point = ofDigits digits (point - k) := by
  induction k generalizing point with
  | zero =>
      simp
  | succ k ih =>
      rw [List.replicate_succ, List.cons_append, ofDigits_zero_cons, ih]
      congr 1
      omega

theorem ofDigits_append_zeros (digits : Text) (k : Nat) (point : Int) :
    ofDigits (digits ++ List.replicate k (.char '0')) point = ofDigits digits point := by
  induction k with
  | zero =>
      simp
  | succ k ih =>
      rw [List.replicate_succ', ← List.append_assoc, ofDigits_append_zero, ih]

/-- A fraction is read as the digits around its point, moved by its exponent. -/
theorem ofText?_fraction {whole places : Text} (tail : Text) {e : Int}
    (hwhole : ∀ c ∈ whole, c.isDigit = true) (hplaces : ∀ c ∈ places, c.isDigit = true)
    (hne : whole ++ places ≠ []) (hexponent : exponent? tail = some e)
    (htail : ∀ c, tail.head? = some c → c.isDigit = false) :
    ofText? (whole ++ .char '.' :: (places ++ tail)) =
      some (ofDigits (whole ++ places) (whole.length + e)) := by
  have hpoint : ∀ c ∈ (.char '.' :: (places ++ tail)).head?, c.isDigit = false := by
    rintro c ⟨⟩
    decide
  obtain ⟨htake, hdrop⟩ := Text.span_append hwhole hpoint
  obtain ⟨htake', hdrop'⟩ := Text.span_append hplaces htail
  simp only [ofText?, htake, hdrop, htake', hdrop', hexponent]
  rw [if_neg (fun h => hne (List.append_eq_nil_iff.2 h))]
  rfl

end Numeral

namespace Double

open Numeral

theorem isDigit_of_mem_zeros {k : Nat} {c : CodePoint} (h : c ∈ List.replicate k (.char '0')) :
    c.isDigit = true := by
  rw [(List.mem_replicate.1 h).2]
  decide

/-- A numeral that is written around its point is read back. -/
theorem ofText?_positional {n : Numeral} (h : n.Normal) :
    Numeral.ofText? (positional n) = some n := by
  unfold positional
  split
  · next hpoint =>
      have hplaces : ∀ c ∈ List.replicate n.point.natAbs (.char '0') ++ n.digits,
          c.isDigit = true := by
        intro c hc
        rcases List.mem_append.1 hc with hc | hc
        · exact isDigit_of_mem_zeros hc
        · exact h.isDigit c hc
      have hzero : ∀ c ∈ (['0'] : Text), c.isDigit = true := by simp
      have hread := ofText?_fraction [] hzero hplaces (by simp) rfl (by simp)
      have hvalue :
          ofDigits ([.char '0'] ++ (List.replicate n.point.natAbs (.char '0') ++ n.digits))
          ((['0'] : Text).length + 0) = n := by
        have hscale : ((['0'] : Text).length : Int) + 0 - 1 - (n.point.natAbs : Nat) = n.point := by
          show (1 : Int) + 0 - 1 - (n.point.natAbs : Nat) = n.point
          omega
        rw [List.singleton_append, ofDigits_zero_cons, ofDigits_zeros_append, hscale]
        exact h.ofDigits_eq
      rw [hvalue, List.append_nil] at hread
      simpa using hread
  · next hpoint =>
      have hwhole : ∀ c ∈ n.digits.take n.point.toNat ++
          List.replicate (n.point.toNat - n.digits.length) (.char '0'), c.isDigit = true := by
        intro c hc
        rcases List.mem_append.1 hc with hc | hc
        · exact h.isDigit c (List.mem_of_mem_take hc)
        · exact isDigit_of_mem_zeros hc
      have hlength : (n.digits.take n.point.toNat ++
          List.replicate (n.point.toNat - n.digits.length) (CodePoint.char '0')).length =
            n.point.toNat := by
        simp
        omega
      have hscale : ((n.point.toNat : Nat) : Int) + 0 = n.point := by omega
      by_cases hnil : n.digits.drop n.point.toNat = []
      · -- All digits stand before the point, and what stands after them are zeros.
        have hshort : n.digits.length ≤ n.point.toNat := List.drop_eq_nil_iff.1 hnil
        have hzero : ∀ c ∈ (['0'] : Text), c.isDigit = true := by simp
        have hread := ofText?_fraction [] hwhole hzero (by simp) rfl (by simp)
        rw [hlength, hscale, ofDigits_append_zero, ofDigits_append_zeros,
          List.take_of_length_le hshort, h.ofDigits_eq] at hread
        simpa [hnil, List.take_of_length_le hshort] using hread
      · have hlong : n.point.toNat - n.digits.length = 0 := by
          have hnot : ¬ n.digits.length ≤ n.point.toNat :=
            fun hle => hnil (List.drop_eq_nil_iff.2 hle)
          omega
        have hplaces : ∀ c ∈ n.digits.drop n.point.toNat, c.isDigit = true :=
          fun c hc => h.isDigit c (List.mem_of_mem_drop hc)
        have hread := ofText?_fraction [] hwhole hplaces (List.append_ne_nil_of_right_ne_nil _ hnil)
          rfl (by simp)
        rw [hlength, hscale, hlong, List.replicate_zero, List.append_nil,
          List.take_append_drop, h.ofDigits_eq] at hread
        simpa [hnil, hlong] using hread

/-- A numeral that is written with a power of ten is read back. -/
theorem ofText?_scientific {n : Numeral} (h : n.Normal) (hne : n.digits ≠ []) :
    Numeral.ofText? (scientific n) = some n := by
  have hexponent : exponent? (.char 'E' :: Text.ofInt (n.point - 1)) = some (n.point - 1) := by
    simp [exponent?, integer?_ofInt]
  have htail : ∀ c, (.char 'E' :: Text.ofInt (n.point - 1)).head? = some c → c.isDigit = false := by
    rintro c ⟨⟩
    decide
  obtain ⟨digits, point⟩ := n
  cases digits with
  | nil =>
      exact absurd rfl hne
  | cons d rest =>
      have hd : ∀ c ∈ [d], c.isDigit = true := by
        intro c hc
        exact h.isDigit c (by simp [List.mem_singleton.1 hc])
      have hscale : (([d] : Text).length : Int) + (point - 1) = point := by
        show (1 : Int) + (point - 1) = point
        omega
      unfold scientific
      simp only [List.tail_cons, List.take_succ_cons, List.take_zero]
      by_cases hnil : rest = []
      · subst hnil
        have hzero : ∀ c ∈ (['0'] : Text), c.isDigit = true := by simp
        have hread := ofText?_fraction _ hd hzero (by simp) hexponent htail
        rw [hscale, ofDigits_append_zero, h.ofDigits_eq] at hread
        simpa using hread
      · have hplaces : ∀ c ∈ rest, c.isDigit = true :=
          fun c hc => h.isDigit c (List.mem_cons_of_mem _ hc)
        have hread := ofText?_fraction _ hd hplaces (by simp) hexponent htail
        have hform : ofDigits ([d] ++ rest) point = ⟨d :: rest, point⟩ := h.ofDigits_eq
        rw [hscale, hform] at hread
        simpa [hnil] using hread

/-- A numeral in its one form is read back from its text. -/
theorem ofText?_numeralText {n : Numeral} (h : n.Normal) (hne : n.digits ≠ []) :
    Numeral.ofText? (numeralText n) = some n := by
  unfold numeralText
  rw [if_neg hne]
  split
  · exact ofText?_positional h
  · exact ofText?_scientific h hne

end Double
end Stencil
