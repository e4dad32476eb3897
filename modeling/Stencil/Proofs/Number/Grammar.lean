import Stencil.Proofs.Number.Digits

/-!
# The grammar of numbers

What the text of a number looks like, said without a reader, and that the readers accept exactly
that and give out what is written.

**Grammar.**  Before any number there may be a sign.
* An integer is digits, one at least.
* A fraction is digits, one at least, with at most one point before, among or after them, and then
  nothing or an exponent, which is `e` or `E` and an integer.
* A double is a fraction, or one of the words `NaN` and `Infinity`.

**Argument.**  A reader takes the digits up to the first other character, so what is written after
them is found where they end, as it begins with no digit (`Text.span_append`).  Conversely what a
reader has taken for a sign, for digits and for an exponent makes up the text.

**Results.**
* `Numeral.integer?_eq_some_iff` and `Numeral.ofText?_eq_some_iff`: integers and fractions.
* `Numeral.int64?_eq_error_iff`: the integers that are not read for their many digits.
* `Double.ofText?_eq_some_iff`: doubles.
* `Double.writes_of_not_hasMark_iff`: which doubles have no point and no exponent mark.
-/

namespace Stencil

namespace Number

/-- The characters that make a numeric text the text of a double. -/
def HasMark (t : Text) : Prop := .char '.' ∈ t ∨ .char 'e' ∈ t ∨ .char 'E' ∈ t

theorem ofText?_of_hasMark {t : Text} (h : HasMark t) :
    ofText? t = .ok ((Double.ofText? t).map .double) :=
  if_pos h

theorem ofText?_of_not_hasMark {t : Text} (h : ¬ HasMark t) :
    ofText? t = (int64? t).map fun n => n.map .int :=
  if_neg h

theorem HasMark.append_left {t : Text} (h : HasMark t) (s : Text) : HasMark (s ++ t) := by
  have happend {c : CodePoint} : c ∈ t → c ∈ s ++ t := List.mem_append_right s
  exact h.imp happend (Or.imp happend happend)

end Number

open Number (HasMark)

namespace Numeral

/-- A sign before a number, or none. -/
inductive Sign
  | absent
  | plus
  | minus

namespace Sign

/-- A sign as it is written. -/
def raw : Sign → Text
  | absent => []
  | plus => ['+']
  | minus => ['-']

/-- The sign is a minus. -/
def isMinus : Sign → Bool
  | minus => true
  | _ => false

theorem mem_raw {sign : Sign} {c : CodePoint} (hc : c ∈ sign.raw) : c = '+' ∨ c = '-' := by
  cases sign <;> simp_all [raw]

end Sign

/-- A sign is read off what begins with no sign. -/
theorem splitSign_raw (sign : Sign) {body : Text} (h : ∀ c ∈ body.head?, c ≠ '-' ∧ c ≠ '+') :
    splitSign (sign.raw ++ body) = (sign.isMinus, body) := by
  cases sign with
  | plus | minus =>
      rfl
  | absent =>
      show splitSign body = (false, body)
      unfold splitSign
      split
      · exact absurd rfl (h '-' rfl).1
      · exact absurd rfl (h '+' rfl).2
      · rfl

/-- What is read as a sign and what is left are the text. -/
theorem exists_sign (t : Text) :
    ∃ sign : Sign, sign.raw ++ (splitSign t).2 = t ∧ sign.isMinus = (splitSign t).1 := by
  unfold splitSign
  split
  · exact ⟨.minus, rfl, rfl⟩
  · exact ⟨.plus, rfl, rfl⟩
  · exact ⟨.absent, rfl, rfl⟩

/-- An integer as it is written. -/
structure WrittenInteger where
  sign : Sign
  digits : Text
  digits_ne_nil : digits ≠ []
  isDigit : ∀ c ∈ digits, c.isDigit = true

namespace WrittenInteger

/-- The text of a written integer. -/
def raw (w : WrittenInteger) : Text := w.sign.raw ++ w.digits

/-- The integer that is written. -/
def value (w : WrittenInteger) : Int :=
  if w.sign.isMinus then -(Text.digitsValue w.digits : Int)
  else Text.digitsValue w.digits

end WrittenInteger

theorem WrittenInteger.splitSign_raw (w : WrittenInteger) :
    splitSign w.raw = (w.sign.isMinus, w.digits) := by
  refine Numeral.splitSign_raw w.sign fun c hc => ?_
  have hdigit := w.isDigit c (List.mem_of_mem_head? hc)
  constructor <;> rintro rfl <;> exact absurd hdigit (by decide)

theorem digitCount_raw (w : WrittenInteger) : digitCount w.raw = w.digits.length := by
  rw [digitCount, w.splitSign_raw]

theorem integer?_raw (w : WrittenInteger) : integer? w.raw = some w.value := by
  have hdigits : w.digits ≠ [] ∧ w.digits.all CodePoint.isDigit = true :=
    ⟨w.digits_ne_nil, List.all_eq_true.2 w.isDigit⟩
  simp only [integer?, w.splitSign_raw, if_pos hdigits, WrittenInteger.value]

/-- An integer is read from a text exactly if the text writes it. -/
theorem integer?_eq_some_iff {t : Text} {n : Int} :
    integer? t = some n ↔ ∃ w : WrittenInteger, w.raw = t ∧ w.value = n := by
  constructor
  · intro h
    obtain ⟨sign, hraw, hminus⟩ := exists_sign t
    simp only [integer?] at h
    split at h
    · next hdigits =>
        refine ⟨⟨sign, _, hdigits.1, List.all_eq_true.1 hdigits.2⟩, hraw, ?_⟩
        rw [← hminus] at h
        exact Option.some.inj h
    · simp at h
  · rintro ⟨w, rfl, rfl⟩
    exact integer?_raw w

/-- An integer has more digits than are read. -/
def WrittenInteger.IsLong (w : WrittenInteger) : Prop := digitLimit < w.digits.length

instance (w : WrittenInteger) : Decidable w.IsLong := inferInstanceAs (Decidable (_ < _))

/-- An integer with one digit more than are read. -/
def WrittenInteger.overlong : WrittenInteger where
  sign := .absent
  digits := List.replicate (digitLimit + 1) (.char '1')
  digits_ne_nil := by simp
  isDigit c hc := by
    obtain rfl := List.eq_of_mem_replicate hc
    rfl

theorem WrittenInteger.length_overlong : overlong.digits.length = digitLimit + 1 :=
  List.length_replicate

theorem WrittenInteger.isLong_overlong : overlong.IsLong := by
  rw [IsLong, length_overlong]
  exact Nat.lt_succ_self _

/-- What is read from a written integer. -/
theorem int64?_raw (w : WrittenInteger) :
    Number.int64? w.raw =
      if w.IsLong then .error ⟨w.digits.length⟩
      else if Int64.minValue.toInt ≤ w.value ∧ w.value ≤ Int64.maxValue.toInt then
        .ok (some (Int64.ofInt w.value))
      else .ok none := by
  simp only [Number.int64?, integer?_raw, digitCount_raw]
  rfl

/-- What is no integer is no failure either. -/
theorem exists_raw_or_int64? (t : Text) :
    (∃ w : WrittenInteger, w.raw = t) ∨
      Number.int64? t = .ok none ∧ ¬ ∃ w : WrittenInteger, w.raw = t := by
  cases hread : integer? t with
  | some n =>
      obtain ⟨w, hw, -⟩ := integer?_eq_some_iff.1 hread
      exact Or.inl ⟨w, hw⟩
  | none =>
      refine Or.inr ⟨by simp only [Number.int64?, hread], ?_⟩
      rintro ⟨w, rfl⟩
      simp [integer?_raw] at hread

/-- Reading an integer fails if it is written with too many digits, and not otherwise. -/
theorem int64?_eq_error_iff {t : Text} {e : TooManyDigits} :
    Number.int64? t = .error e ↔
      ∃ w : WrittenInteger, w.raw = t ∧ w.IsLong ∧ e = ⟨w.digits.length⟩ := by
  constructor
  · intro h
    rcases exists_raw_or_int64? t with ⟨w, rfl⟩ | ⟨hnone, -⟩
    · rw [int64?_raw] at h
      split at h
      · next hlong =>
          exact ⟨w, rfl, hlong, (Except.error.inj h).symm⟩
      · split at h <;> simp at h
    · simp [hnone] at h
  · rintro ⟨w, rfl, hlong, rfl⟩
    rw [int64?_raw, if_pos hlong]

theorem int64?_overlong :
    Number.int64? WrittenInteger.overlong.raw = .error ⟨digitLimit + 1⟩ := by
  rw [← WrittenInteger.length_overlong]
  exact int64?_eq_error_iff.2 ⟨_, rfl, WrittenInteger.isLong_overlong, rfl⟩

/-- An integer is written with digits, and with no other character than a sign. -/
theorem WrittenInteger.mem_raw (w : WrittenInteger) {c : CodePoint} (hc : c ∈ w.raw) :
    c.isDigit = true ∨ c = '+' ∨ c = '-' := by
  rcases List.mem_append.1 hc with hsign | hdigit
  · exact Or.inr (Sign.mem_raw hsign)
  · exact Or.inl (w.isDigit c hdigit)

/-- An integer is written without a mark. -/
theorem WrittenInteger.not_hasMark (w : WrittenInteger) : ¬ HasMark w.raw := by
  rintro (h | h | h) <;> exact absurd (w.mem_raw h) (by decide)

/-- What may stand after the digits of a fraction. -/
inductive WrittenExponent
  | absent
  | present (mark : CodePoint) (isMark : mark = 'e' ∨ mark = 'E') (power : WrittenInteger)

namespace WrittenExponent

/-- The text of a written exponent. -/
def raw : WrittenExponent → Text
  | absent => []
  | present mark _ power => mark :: power.raw

/-- The power of ten that is written. -/
def value : WrittenExponent → Int
  | absent => 0
  | present _ _ power => power.value

theorem head_raw (w : WrittenExponent) : ∀ c ∈ w.raw.head?, c = 'e' ∨ c = 'E' := by
  cases w with
  | absent =>
      simp [raw]
  | present mark isMark power =>
      rintro c ⟨⟩
      exact isMark

end WrittenExponent

theorem exponent?_eq_some_iff {t : Text} {e : Int} :
    exponent? t = some e ↔ ∃ w : WrittenExponent, w.raw = t ∧ w.value = e := by
  constructor
  · intro h
    cases t with
    | nil =>
        exact ⟨.absent, rfl, Option.some.inj h⟩
    | cons c rest =>
        simp only [exponent?] at h
        split at h
        · next hmark =>
            obtain ⟨w, rfl, hvalue⟩ := integer?_eq_some_iff.1 h
            exact ⟨.present c hmark w, rfl, hvalue⟩
        · simp at h
  · rintro ⟨w, rfl, rfl⟩
    cases w with
    | absent =>
        rfl
    | present mark isMark power =>
        simp only [WrittenExponent.raw, WrittenExponent.value, exponent?, if_pos isMark,
          integer?_raw]

/-- A fraction without a sign as it is written: without a point, or with digits around it. -/
inductive WrittenFraction
  | plain (digits : Text) (digits_ne_nil : digits ≠ [])
      (isDigit : ∀ c ∈ digits, c.isDigit = true) (exponent : WrittenExponent)
  | pointed (whole places : Text) (digits_ne_nil : whole ++ places ≠ [])
      (isDigit : ∀ c ∈ whole ++ places, c.isDigit = true) (exponent : WrittenExponent)

namespace WrittenFraction

/-- The text of a written fraction. -/
def raw : WrittenFraction → Text
  | plain digits _ _ exponent => digits ++ exponent.raw
  | pointed whole places _ _ exponent => whole ++ .char '.' :: (places ++ exponent.raw)

/-- The numeral that is written. -/
def numeral : WrittenFraction → Numeral
  | plain digits _ _ exponent => ofDigits digits (digits.length + exponent.value)
  | pointed whole places _ _ exponent =>
      ofDigits (whole ++ places) (whole.length + exponent.value)

theorem head_raw (w : WrittenFraction) : ∀ c ∈ w.raw.head?, c.isDigit = true ∨ c = '.' := by
  cases w with
  | plain digits digits_ne_nil isDigit exponent =>
      cases digits with
      | nil =>
          exact absurd rfl digits_ne_nil
      | cons d digits =>
          rintro c ⟨⟩
          exact Or.inl (isDigit _ List.mem_cons_self)
  | pointed whole places digits_ne_nil isDigit exponent =>
      cases whole with
      | nil =>
          rintro c ⟨⟩
          exact Or.inr rfl
      | cons d whole =>
          rintro c ⟨⟩
          exact Or.inl (isDigit _ List.mem_cons_self)

/-- A fraction without a mark is digits. -/
theorem isDigit_of_not_hasMark {w : WrittenFraction} (h : ¬ HasMark w.raw) :
    w.raw ≠ [] ∧ ∀ c ∈ w.raw, c.isDigit = true := by
  cases w with
  | plain digits digits_ne_nil isDigit exponent =>
      cases exponent with
      | absent =>
          rw [raw, WrittenExponent.raw, List.append_nil]
          exact ⟨digits_ne_nil, isDigit⟩
      | present mark isMark power =>
          have hmark : HasMark (WrittenExponent.present mark isMark power).raw := by
            refine Or.inr (isMark.imp ?_ ?_) <;> rintro rfl <;> exact List.mem_cons_self
          exact absurd (hmark.append_left digits) h
  | pointed whole places digits_ne_nil isDigit exponent =>
      have hmark : HasMark (.char '.' :: (places ++ exponent.raw)) := Or.inl List.mem_cons_self
      exact absurd (hmark.append_left whole) h

end WrittenFraction

theorem ofText?_raw (w : WrittenFraction) : ofText? w.raw = some w.numeral := by
  have hread (exponent : WrittenExponent) : exponent? exponent.raw = some exponent.value :=
    exponent?_eq_some_iff.2 ⟨exponent, rfl, rfl⟩
  have hstop (exponent : WrittenExponent) : ∀ c ∈ exponent.raw.head?, c.isDigit = false := by
    intro c hc
    rcases exponent.head_raw c hc with rfl | rfl <;> decide
  cases w with
  | plain digits hne hdigit exponent =>
      obtain ⟨htake, hdrop⟩ := Text.span_append hdigit (hstop exponent)
      simp only [WrittenFraction.raw, WrittenFraction.numeral, ofText?, htake, hdrop]
      split
      · next rest hpoint =>
          have hmark := exponent.head_raw '.' (by rw [hpoint]; rfl)
          exact absurd hmark (by decide)
      · rw [if_neg hne, hread, Option.map_some]
  | pointed whole places hne hdigit exponent =>
      obtain ⟨hwhole, hplaces⟩ := List.forall_mem_append.1 hdigit
      exact ofText?_fraction exponent.raw hwhole hplaces hne (hread exponent) (hstop exponent)

/-- A fraction is read from a text exactly if the text writes it. -/
theorem ofText?_eq_some_iff {t : Text} {n : Numeral} :
    ofText? t = some n ↔ ∃ w : WrittenFraction, w.raw = t ∧ w.numeral = n := by
  constructor
  · intro h
    have htaken (u : Text) : ∀ c ∈ u.takeWhile CodePoint.isDigit, c.isDigit = true :=
      List.all_eq_true.1 List.all_takeWhile
    have hsplit (u : Text) : u.takeWhile CodePoint.isDigit ++ u.dropWhile CodePoint.isDigit = u :=
      List.takeWhile_append_dropWhile
    simp only [ofText?] at h
    split at h
    · next rest hrest =>
        split at h
        · simp at h
        · next hsome =>
            obtain ⟨e, he, hnumeral⟩ := Option.map_eq_some_iff.1 h
            obtain ⟨exponent, hraw, rfl⟩ := exponent?_eq_some_iff.1 he
            refine ⟨.pointed _ _ (fun hnil => hsome (List.append_eq_nil_iff.1 hnil))
              (List.forall_mem_append.2 ⟨htaken t, htaken rest⟩) exponent, ?_, hnumeral⟩
            rw [WrittenFraction.raw, hraw, hsplit, ← hrest, hsplit]
    · split at h
      · simp at h
      · next hsome =>
          obtain ⟨e, he, hnumeral⟩ := Option.map_eq_some_iff.1 h
          obtain ⟨exponent, hraw, rfl⟩ := exponent?_eq_some_iff.1 he
          refine ⟨.plain _ hsome (htaken t) exponent, ?_, hnumeral⟩
          rw [WrittenFraction.raw, hraw, hsplit]
  · rintro ⟨w, rfl, rfl⟩
    exact ofText?_raw w

end Numeral

namespace Double

open Numeral

/-- A text writes a double. -/
inductive Writes : Text → Float → Prop
  | nan (sign : Sign) : Writes (sign.raw ++ "NaN".toText) nan
  | infinity (sign : Sign) :
      Writes (sign.raw ++ "Infinity".toText) (ofMagnitude sign.isMinus infinity)
  | fraction (sign : Sign) (w : WrittenFraction) :
      Writes (sign.raw ++ w.raw) (ofMagnitude sign.isMinus (ofNumeral w.numeral))

/-- A double is read from a text exactly if the text writes it. -/
theorem ofText?_eq_some_iff {t : Text} {x : Float} : ofText? t = some x ↔ Writes t x := by
  constructor
  · intro h
    obtain ⟨sign, hraw, hminus⟩ := exists_sign t
    simp only [ofText?] at h
    rw [← hraw]
    split at h
    · next hnan =>
        rw [hnan, ← Option.some.inj h]
        exact .nan sign
    · split at h
      · next hinfinity =>
          rw [hinfinity, ← Option.some.inj h, ← hminus]
          exact .infinity sign
      · obtain ⟨n, hn, rfl⟩ := Option.map_eq_some_iff.1 h
        obtain ⟨w, hw, rfl⟩ := Numeral.ofText?_eq_some_iff.1 hn
        rw [← hw, ← hminus]
        exact .fraction sign w
  · intro h
    cases h with
    | nan sign =>
        cases sign <;> rfl
    | infinity sign =>
        cases sign <;> rfl
    | fraction sign w =>
        have hsign : ∀ c ∈ w.raw.head?, c ≠ '-' ∧ c ≠ '+' := by
          intro c hc
          constructor <;> rintro rfl <;> exact absurd (w.head_raw _ hc) (by decide)
        have hnan : w.raw ≠ "NaN".toText := fun h =>
          absurd (w.head_raw 'N' (by rw [h]; rfl)) (by decide)
        have hinfinity : w.raw ≠ "Infinity".toText := fun h =>
          absurd (w.head_raw 'I' (by rw [h]; rfl)) (by decide)
        simp only [ofText?, splitSign_raw sign hsign, if_neg hnan, if_neg hinfinity,
          Numeral.ofText?_raw, Option.map_some]

/-- The words for doubles, with a sign or without. -/
def IsWord (t : Text) : Prop :=
  ∃ sign : Sign, t = sign.raw ++ "NaN".toText ∨ t = sign.raw ++ "Infinity".toText

theorem not_hasMark_of_isWord {t : Text} (h : IsWord t) : ¬ HasMark t := by
  unfold HasMark
  obtain ⟨sign, rfl | rfl⟩ := h <;> cases sign <;> decide

/-- A written integer is a fraction as well. -/
theorem exists_writes_integer (w : WrittenInteger) : ∃ x, Writes w.raw x := by
  have h := Writes.fraction w.sign (.plain w.digits w.digits_ne_nil w.isDigit .absent)
  rw [WrittenFraction.raw, WrittenExponent.raw, List.append_nil] at h
  exact ⟨_, h⟩

/-- The doubles that are written without a mark are the words and the integers. -/
theorem writes_of_not_hasMark_iff {t : Text} :
    (∃ x, Writes t x) ∧ ¬ HasMark t ↔ IsWord t ∨ ∃ w : WrittenInteger, w.raw = t := by
  constructor
  · rintro ⟨⟨x, hx⟩, hmark⟩
    cases hx with
    | nan sign =>
        exact Or.inl ⟨sign, Or.inl rfl⟩
    | infinity sign =>
        exact Or.inl ⟨sign, Or.inr rfl⟩
    | fraction sign w =>
        obtain ⟨hne, hdigit⟩ :=
          WrittenFraction.isDigit_of_not_hasMark fun h => hmark (h.append_left sign.raw)
        exact Or.inr ⟨⟨sign, w.raw, hne, hdigit⟩, rfl⟩
  · rintro (hword | ⟨w, rfl⟩)
    · refine ⟨?_, not_hasMark_of_isWord hword⟩
      obtain ⟨sign, rfl | rfl⟩ := hword
      · exact ⟨_, .nan sign⟩
      · exact ⟨_, .infinity sign⟩
    · exact ⟨exists_writes_integer w, w.not_hasMark⟩

end Double
end Stencil
