import Stencil.Proofs.Number.Grammar
import Stencil.Proofs.Token.Read
import Stencil.Proofs.Value.Integers

/-!
# Numeric texts and numeric literals

Which texts are taken for numbers among operands, and how these compare with the literals.

**Argument.**  Both readers try the same two forms, and differ in how they choose.  A literal is a
double if it is no integer of 64 bits; a numeric text is a double if it has a mark, that is a point
or an exponent mark.  No integer has a mark, so that a text with one is the same number for both.  A
text without one is a numeric text only as an integer, while it is a literal also as a double that
is written without a mark: as a word, or as an integer that is out of range.  Both readers give up
on the same integers, those with too many digits.

**Results.**  `Value.numeric_text_iff_literal`.
-/

namespace Stencil

open Double (IsWord)
open Numeral (WrittenInteger)

namespace Number

/-- The integers of 64 bits are those that a register holds. -/
theorem isInt64_iff_exists {n : Int} : IsInt64 n ↔ ∃ m : Int64, n = m.toInt := by
  constructor
  · rintro ⟨hlow, hhigh⟩
    exact ⟨Int64.ofInt n, (Int64.toInt_ofInt_of_le hlow (by omega)).symm⟩
  · rintro ⟨m, rfl⟩
    exact isInt64_toInt m

variable {t : Text}

/-- A register holds an integer of 64 bits exactly if the integer is in the range. -/
theorem ofInt_eq_iff {exact : Int} {n : Int64} (h : IsInt64 exact) :
    Int64.ofInt exact = n ↔ exact = n.toInt := by
  obtain ⟨m, rfl⟩ := isInt64_iff_exists.1 h
  rw [Int64.ofInt_toInt, Int64.toInt_inj]

/-- An integer of 64 bits is read from a text exactly if the text writes it, with not too many
digits. -/
theorem int64?_eq_some_iff {n : Int64} :
    int64? t = .ok (some n) ↔
      ∃ w : WrittenInteger, w.raw = t ∧ ¬ w.IsLong ∧ w.value = n.toInt := by
  constructor
  · intro h
    rcases Numeral.exists_raw_or_int64? t with ⟨w, rfl⟩ | ⟨hnone, -⟩
    · rw [Numeral.int64?_raw] at h
      split at h
      · simp at h
      · next hshort =>
          split at h
          · next hrange =>
              exact ⟨w, rfl, hshort, (ofInt_eq_iff hrange).1 (Option.some.inj (Except.ok.inj h))⟩
          · simp at h
    · simp [hnone] at h
  · rintro ⟨w, rfl, hshort, hvalue⟩
    have hrange : IsInt64 w.value := isInt64_iff_exists.2 ⟨n, hvalue⟩
    rw [Numeral.int64?_raw, if_neg hshort, (ofInt_eq_iff hrange).2 hvalue]
    exact if_pos hrange

/-- No integer is read from a text, and reading does not fail, exactly if the text writes none, or
one that is out of range and has not too many digits. -/
theorem int64?_eq_none_iff :
    int64? t = .ok none ↔ ∀ w : WrittenInteger, w.raw = t → ¬ w.IsLong ∧ ¬ IsInt64 w.value := by
  constructor
  · rintro h w rfl
    rw [Numeral.int64?_raw] at h
    split at h
    · simp at h
    · next hshort =>
        split at h
        · simp at h
        · next hrange =>
            exact ⟨hshort, hrange⟩
  · intro h
    rcases Numeral.exists_raw_or_int64? t with ⟨w, rfl⟩ | ⟨hnone, -⟩
    · obtain ⟨hshort, hrange⟩ := h w rfl
      rw [Numeral.int64?_raw, if_neg hshort]
      exact if_neg hrange
    · exact hnone

/-- A text with a mark is no integer. -/
theorem int64?_of_hasMark (h : HasMark t) : int64? t = .ok none := by
  refine int64?_eq_none_iff.2 ?_
  rintro w rfl
  exact absurd h w.not_hasMark

theorem int64?_of_isWord (h : IsWord t) : int64? t = .ok none := by
  obtain ⟨sign, rfl | rfl⟩ := h <;> cases sign <;> decide

theorem ofLiteral?_int_iff {n : Int64} :
    ofLiteral? t = .ok (some (.int n)) ↔ int64? t = .ok (some n) := by
  unfold ofLiteral?
  rcases int64? t with e | _ | m <;> simp

theorem ofLiteral?_double_iff {x : Float} :
    ofLiteral? t = .ok (some (.double x)) ↔ Double.ofText? t = some x ∧ int64? t = .ok none := by
  unfold ofLiteral?
  rcases int64? t with e | _ | m <;> simp

theorem ofLiteral?_error_iff {e : TooManyDigits} :
    ofLiteral? t = .error e ↔ int64? t = .error e := by
  unfold ofLiteral?
  rcases int64? t with e | _ | m <;> simp

theorem ofText?_int_iff {n : Int64} :
    ofText? t = .ok (some (.int n)) ↔ int64? t = .ok (some n) := by
  by_cases hmark : HasMark t
  · simp [ofText?_of_hasMark hmark, int64?_of_hasMark hmark]
  · rw [ofText?_of_not_hasMark hmark]
    rcases int64? t with e | _ | m <;> simp [Except.map]

theorem ofText?_double_iff {x : Float} :
    ofText? t = .ok (some (.double x)) ↔ Double.ofText? t = some x ∧ HasMark t := by
  by_cases hmark : HasMark t
  · simp [ofText?_of_hasMark hmark, hmark]
  · rw [ofText?_of_not_hasMark hmark]
    rcases int64? t with e | _ | m <;> simp [Except.map, hmark]

theorem ofText?_error_iff {e : TooManyDigits} : ofText? t = .error e ↔ int64? t = .error e := by
  by_cases hmark : HasMark t
  · simp [ofText?_of_hasMark hmark, int64?_of_hasMark hmark]
  · rw [ofText?_of_not_hasMark hmark]
    rcases int64? t with e | _ | m <;> simp [Except.map]

/-- A text with a mark is the same number as a literal and among operands. -/
theorem ofText?_double_iff_ofLiteral? {x : Float} :
    ofText? t = .ok (some (.double x)) ↔ ofLiteral? t = .ok (some (.double x)) ∧ HasMark t := by
  rw [ofText?_double_iff, ofLiteral?_double_iff, and_right_comm]
  exact ⟨fun h => ⟨h, int64?_of_hasMark h.2⟩, fun h => h.1⟩

theorem ofText?_eq_none_iff :
    ofText? t = .ok none ↔ (¬ ∃ n, ofLiteral? t = .ok (some (.int n))) ∧
      (¬ ∃ x, ofLiteral? t = .ok (some (.double x)) ∧ HasMark t) ∧
      ¬ ∃ e, ofLiteral? t = .error e := by
  simp only [ofLiteral?_int_iff, ← ofText?_int_iff, ← ofText?_double_iff_ofLiteral?,
    ofLiteral?_error_iff, ← ofText?_error_iff]
  rcases ofText? t with e | _ | n
  · simp
  · simp
  · cases n <;> simp

/-- The literals of doubles that are no numeric texts. -/
theorem double_not_numeric_iff :
    (∃ x, ofLiteral? t = .ok (some (.double x))) ∧ ofText? t = .ok none ↔
      IsWord t ∨ ∃ w : WrittenInteger, w.raw = t ∧ ¬ w.IsLong ∧ ¬ IsInt64 w.value := by
  constructor
  · rintro ⟨⟨x, hx⟩, hnone⟩
    have hmark : ¬ HasMark t := fun h => (ofText?_eq_none_iff.1 hnone).2.1 ⟨x, hx, h⟩
    obtain ⟨hread, hint⟩ := ofLiteral?_double_iff.1 hx
    have hwrites := Double.ofText?_eq_some_iff.1 hread
    rcases Double.writes_of_not_hasMark_iff.1 ⟨⟨x, hwrites⟩, hmark⟩ with hword | ⟨w, hw⟩
    · exact Or.inl hword
    · exact Or.inr ⟨w, hw, int64?_eq_none_iff.1 hint w hw⟩
  · intro h
    have hunmarked := Double.writes_of_not_hasMark_iff.2 (h.imp_right fun ⟨w, hw, _⟩ => ⟨w, hw⟩)
    obtain ⟨⟨x, hwrites⟩, hmark⟩ := hunmarked
    have hint : int64? t = .ok none := by
      rcases h with hword | ⟨w, rfl, hshort, hrange⟩
      · exact int64?_of_isWord hword
      · rw [Numeral.int64?_raw, if_neg hshort]
        exact if_neg hrange
    have hread := Double.ofText?_eq_some_iff.2 hwrites
    exact ⟨⟨x, ofLiteral?_double_iff.2 ⟨hread, hint⟩⟩, by
      rw [ofText?_of_not_hasMark hmark, hint]
      rfl⟩

end Number

namespace Token

/-- The fields that are read as numbers are the literals. -/
theorem ofField_eq_number_iff {t : Text} {n : Number} :
    ofField t = .ok (.number n) ↔ Number.ofLiteral? t = .ok (some n) := by
  constructor
  · intro h
    obtain ⟨m, hm, hliteral⟩ | ⟨x, hx, -⟩ | ⟨op, hop, -⟩ | ⟨body, hbody, -⟩ | ⟨hvar, -⟩ :=
      ofField_cases h
    · rw [hliteral, Token.number.inj hm]
    · simp at hx
    · simp at hop
    · simp at hbody
    · simp at hvar
  · intro h
    rw [ofField, h]

theorem ofWord_ne_tooManyDigits (field : Text) (e : TooManyDigits) :
    ofWord field ≠ .error (.tooManyDigits e) := by
  unfold ofWord
  split
  · split <;> simp
  · split
    · simp
    · simp
    · split <;> simp

theorem ofField_eq_tooManyDigits_iff {t : Text} {e : TooManyDigits} :
    ofField t = .error (.tooManyDigits e) ↔ Number.ofLiteral? t = .error e := by
  unfold ofField
  rcases Number.ofLiteral? t with e' | _ | n <;> simp [ofWord_ne_tooManyDigits]

end Token

namespace Value

open Number

theorem toNumber_text_eq_ok_iff {t : Text} {n : Number} :
    (text t).toNumber = .ok n ↔ ofText? t = .ok (some n) := by
  rcases h : ofText? t with e | _ | m <;> simp [toNumber, h]

theorem toNumber_text_eq_error_iff {t : Text} {fault : Fault} :
    (text t).toNumber = .error fault ↔ fault = .notANumber t ∧ ofText? t = .ok none ∨
      ∃ e, fault = .tooManyDigits e ∧ ofText? t = .error e := by
  rcases h : ofText? t with e | _ | m <;> simp [toNumber, h, eq_comm]

/-- **Numeric texts and numeric literals.**

* A text is an integer among operands exactly if it is the literal of that integer.
* It is a double among operands exactly if it is the literal of that double and has a mark.
* It is not read at all, neither as a literal nor among operands, exactly if it writes an integer
  with too many digits, and both failures tell their number.
* In every other case it is found to be no number, and the message shows the text.
* The literals that are found to be no numbers among operands are those of doubles without a mark:
  the words, with a sign or without, and the integers that are out of range.
* A literal is an integer if the text writes it in range, and else a double if the text writes
  one; with too many digits it is neither. -/
theorem numeric_text_iff_literal (t : Text) :
    (∀ n, (text t).toNumber = .ok (.int n) ↔ Token.ofField t = .ok (.number (.int n))) ∧
    (∀ x, (text t).toNumber = .ok (.double x) ↔
      Token.ofField t = .ok (.number (.double x)) ∧ HasMark t) ∧
    (∀ e, ((text t).toNumber = .error (.tooManyDigits e) ↔
        ∃ w : WrittenInteger, w.raw = t ∧ w.IsLong ∧ e = ⟨w.digits.length⟩) ∧
      (Token.ofField t = .error (.tooManyDigits e) ↔
        ∃ w : WrittenInteger, w.raw = t ∧ w.IsLong ∧ e = ⟨w.digits.length⟩)) ∧
    (∀ fault, (∀ e, fault ≠ .tooManyDigits e) → ((text t).toNumber = .error fault ↔
      fault = .notANumber t ∧ (¬ ∃ n, Token.ofField t = .ok (.number (.int n))) ∧
      (¬ ∃ x, Token.ofField t = .ok (.number (.double x)) ∧ HasMark t) ∧
      ¬ ∃ w : WrittenInteger, w.raw = t ∧ w.IsLong)) ∧
    (Fault.notANumber t).message = "not a number: ".toText ++ Text.quoted t ∧
    ((∃ x, Token.ofField t = .ok (.number (.double x))) ∧
        (text t).toNumber = .error (.notANumber t) ↔
      IsWord t ∨ ∃ w : WrittenInteger, w.raw = t ∧ ¬ w.IsLong ∧ ¬ IsInt64 w.value) ∧
    (∀ n, Token.ofField t = .ok (.number (.int n)) ↔
      ∃ w : WrittenInteger, w.raw = t ∧ ¬ w.IsLong ∧ w.value = n.toInt) ∧
    (∀ x, Token.ofField t = .ok (.number (.double x)) ↔
      Double.Writes t x ∧ ∀ w : WrittenInteger, w.raw = t → ¬ w.IsLong ∧ ¬ IsInt64 w.value) := by
  have hlong : (∃ e, ofLiteral? t = .error e) ↔ ∃ w : WrittenInteger, w.raw = t ∧ w.IsLong := by
    simp only [ofLiteral?_error_iff, Numeral.int64?_eq_error_iff]
    exact ⟨fun ⟨e, w, hw, hlong, _⟩ => ⟨w, hw, hlong⟩, fun ⟨w, hw, hlong⟩ => ⟨_, w, hw, hlong, rfl⟩⟩
  simp only [toNumber_text_eq_ok_iff, toNumber_text_eq_error_iff, Token.ofField_eq_number_iff,
    Token.ofField_eq_tooManyDigits_iff]
  refine ⟨fun n => ?_, fun x => ?_, fun e => ⟨?_, ?_⟩, fun fault hfault => ?_, rfl, ?_, fun n => ?_,
    fun x => ?_⟩
  · rw [ofText?_int_iff, ofLiteral?_int_iff]
  · exact ofText?_double_iff_ofLiteral?
  · rw [← Numeral.int64?_eq_error_iff, ← ofText?_error_iff]
    simp
  · rw [ofLiteral?_error_iff, Numeral.int64?_eq_error_iff]
  · rw [ofText?_eq_none_iff, hlong]
    simp [hfault]
  · simp only [true_and, reduceCtorEq, false_and, exists_false, or_false, double_not_numeric_iff]
  · rw [ofLiteral?_int_iff, int64?_eq_some_iff]
  · rw [ofLiteral?_double_iff, Double.ofText?_eq_some_iff, int64?_eq_none_iff]

/-- An integer with too many digits is no literal, and as an operand it is not found to be no
number. -/
theorem toNumber_overlong :
    (¬ ∃ n, Token.ofField WrittenInteger.overlong.raw = .ok (.number n)) ∧
      (text WrittenInteger.overlong.raw).toNumber = .error (.tooManyDigits ⟨4301⟩) ∧
      (text WrittenInteger.overlong.raw).toNumber ≠
        .error (.notANumber WrittenInteger.overlong.raw) := by
  have hread : int64? WrittenInteger.overlong.raw = .error ⟨4301⟩ := Numeral.int64?_overlong
  have hnumber : (text WrittenInteger.overlong.raw).toNumber = .error (.tooManyDigits ⟨4301⟩) :=
    toNumber_text_eq_error_iff.2 (Or.inr ⟨_, rfl, ofText?_error_iff.2 hread⟩)
  refine ⟨?_, hnumber, ?_⟩
  · rintro ⟨n, hn⟩
    rw [Token.ofField_eq_number_iff, ofLiteral?_error_iff.2 hread] at hn
    simp at hn
  · rw [hnumber]
    simp

/-- The least integer above the range, without a point and with one. -/
example :
    let power := Number.double (Double.ofMagnitude false 4890909195324358656)
    Token.ofField "9223372036854775808".toText = .ok (.number power) ∧
      (text "9223372036854775808".toText).toNumber =
        .error (.notANumber "9223372036854775808".toText) ∧
      (text "9223372036854775808.".toText).toNumber = .ok power := by
  decide +kernel

end Value
end Stencil
