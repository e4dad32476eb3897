import Mathlib.Tactic.Linarith
import Mathlib.Tactic.Positivity
import Stencil.Builtin
import Stencil.Proofs.Number.Decimal
import Stencil.Proofs.Number.Literal

/-!
# Numbers formatted by patterns

What a pattern is, and what it makes of a number.

**Reading.**  A pattern is a lead, an integer part, a fraction part after a point and a tail, with
characters of its own in each of them (`IsPattern`).  A text is put together from such parts in at
most one way, since each part ends at a character that it cannot have (`ofText?_eq_some_iff`).

**Formatting.**  The number is put into units of the last place, and rounded there for the first
time, since the precision is enough for every integer and every finite double, a hundred times it
and any number of places (`quantized_eq`, `format_isOk`).  The digits of the rounded number are cut
at the point, and zeros are dropped from both ends or put there, which leaves the number that the
digits write as it is (`written_padLeft`, `written_padRight`, `digits_spec`).  Commas are put
between groups that are counted from the end (`isGrouped_group`).

**Results.**  `Builtin.formatBy_correct`: which patterns are refused, that the parts of a pattern
are unique, and the text that a finite number is formatted as.
-/

namespace Stencil
namespace DecimalPattern

/-- The parts have the characters that they may have, and one of the parts for digits has some. -/
structure IsPattern (p : DecimalPattern) : Prop where
  lead : ∀ c ∈ p.lead, isLiteral c = true
  whole : ∀ c ∈ p.whole, isWhole c = true
  fraction : ∀ c ∈ p.fraction, isPlace c = true
  tail : ∀ c ∈ p.tail, isLiteral c = true
  nonempty : p.whole ≠ [] ∨ p.fraction ≠ []

theorem isLiteral_of_isWhole {c : CodePoint} (h : isWhole c = true) : isLiteral c = false := by
  simp only [isWhole, isPlace, Bool.or_eq_true, decide_eq_true_eq] at h
  rcases h with (rfl | rfl) | rfl <;> rfl

theorem isWhole_of_isLiteral {c : CodePoint} (h : isLiteral c = true) : isWhole c = false := by
  cases hwhole : isWhole c with
  | false =>
      rfl
  | true =>
      exact absurd h (by simp [isLiteral_of_isWhole hwhole])

theorem isPlace_of_isLiteral {c : CodePoint} (h : isLiteral c = true) : isPlace c = false := by
  have hwhole := isWhole_of_isLiteral h
  rw [isWhole, Bool.or_eq_false_iff] at hwhole
  exact hwhole.1

theorem isPlace_of_mem_splitPlaces {t : Text} {c : CodePoint} (h : c ∈ (splitPlaces t).1.getD []) :
    isPlace c = true := by
  unfold splitPlaces at h
  split at h
  · exact List.mem_takeWhile_imp h
  · simp at h

/-- The fraction part ends where the tail begins. -/
theorem splitPlaces_append {places : Option Text} {tail : Text}
    (hplaces : ∀ c ∈ places.getD [], isPlace c = true) (htail : ∀ c ∈ tail, isLiteral c = true) :
    splitPlaces (placesText places ++ tail) = (places, tail) := by
  have hhead : ∀ c ∈ tail.head?, isLiteral c = true :=
    fun c hc => htail c (List.mem_of_mem_head? hc)
  cases places with
  | none =>
      unfold splitPlaces
      split
      · next rest heq =>
          have hpoint := hhead '.' (by rw [show tail = .char '.' :: rest from heq]; rfl)
          exact absurd hpoint (by decide)
      · rfl
  | some digits =>
      obtain ⟨htake, hdrop⟩ :=
        Text.span_append hplaces fun c hc => isPlace_of_isLiteral (hhead c hc)
      have hsome : digits = (some digits).getD [] := rfl
      rw [← hsome] at htake hdrop
      simp [placesText, splitPlaces, htake, hdrop]

/-- The parts of a pattern are found in its text. -/
theorem ofParts_text {p : DecimalPattern} (h : p.IsPattern) : ofParts p.text = p := by
  obtain ⟨lead, whole, places, tail⟩ := p
  obtain ⟨hlead, hwhole, hplaces, htail, hne⟩ := h
  have hrest : ∀ c ∈ (whole ++ (placesText places ++ tail)).head?, isLiteral c = false := by
    cases whole with
    | cons c rest =>
        rintro _ ⟨⟩
        exact isLiteral_of_isWhole (hwhole c List.mem_cons_self)
    | nil =>
        cases places with
        | none =>
            simp [fraction] at hne
        | some digits =>
            rintro _ ⟨⟩
            rfl
  have hending : ∀ c ∈ (placesText places ++ tail).head?, isWhole c = false := by
    cases places with
    | some digits =>
        rintro _ ⟨⟩
        rfl
    | none =>
        intro c hc
        exact isWhole_of_isLiteral (htail c (List.mem_of_mem_head? hc))
  obtain ⟨htake, hdrop⟩ := Text.span_append hlead hrest
  obtain ⟨htake', hdrop'⟩ := Text.span_append hwhole hending
  simp only [ofParts, text, htake, hdrop, htake', hdrop', splitPlaces_append hplaces htail]

/-- A text is read as a pattern if the parts of the pattern, put together, are the text. -/
theorem ofText?_eq_some_iff {t : Text} {p : DecimalPattern} :
    ofText? t = some p ↔ p.text = t ∧ p.IsPattern := by
  constructor
  · intro h
    refine ⟨text_ofText? h, ?_⟩
    unfold ofText? at h
    split at h
    · next hvalid =>
        obtain rfl := Option.some.inj h
        simp only [isValid, Bool.and_eq_true, Bool.or_eq_true, decide_eq_true_eq,
          List.all_eq_true] at hvalid
        exact ⟨fun c => List.mem_takeWhile_imp, fun c => List.mem_takeWhile_imp,
          fun c => isPlace_of_mem_splitPlaces, hvalid.2, hvalid.1⟩
    · simp at h
  · rintro ⟨rfl, h⟩
    have hvalid : p.isValid = true := by
      simp only [isValid, Bool.and_eq_true, Bool.or_eq_true, decide_eq_true_eq, List.all_eq_true]
      exact ⟨h.nonempty, h.tail⟩
    rw [ofText?, ofParts_text h, if_pos hvalid]

/-- The number that digits before and after a point write. -/
def written (whole places : Text) : ℚ :=
  Text.digitsValue (whole ++ places) / 10 ^ places.length

/-- Zeros at the start do not count. -/
theorem written_zeros_append (k : Nat) (whole places : Text) :
    written (List.replicate k (.char '0') ++ whole) places = written whole places := by
  rw [written, List.append_assoc, Text.digitsValue_append, Text.digitsValue_zeros, Nat.mul_zero,
    Nat.zero_add]
  rfl

/-- Zeros at the end do not count. -/
theorem written_append_zeros (whole places : Text) (k : Nat) :
    written whole (places ++ List.replicate k (.char '0')) = written whole places := by
  have hten : (10 : ℚ) ^ k ≠ 0 := by positivity
  rw [written, ← List.append_assoc, Text.digitsValue_append, Text.digitsValue_zeros, Nat.add_zero,
    List.length_append, List.length_replicate, pow_add, mul_comm (10 ^ places.length)]
  push_cast
  rw [mul_div_mul_left _ _ hten]
  rfl

/-- Zeros are dropped from the start or put there. -/
theorem written_padLeft (count : Nat) (whole places : Text) :
    written (padLeft count whole) places = written whole places := by
  obtain ⟨k, hk⟩ := Numeral.exists_dropWhile_zeros whole
  rw [padLeft, written_zeros_append]
  conv_rhs => rw [hk, written_zeros_append]

/-- Zeros are dropped from the end or put there. -/
theorem written_padRight (count : Nat) (whole places : Text) :
    written whole (padRight count places) = written whole places := by
  obtain ⟨k, hk⟩ := Numeral.exists_dropEndZeros places
  rw [padRight, written_append_zeros]
  conv_rhs => rw [hk, written_append_zeros]

theorem le_length_padLeft (count : Nat) (digits : Text) :
    count ≤ (padLeft count digits).length := by
  simp only [padLeft, List.length_append, List.length_replicate]
  omega

theorem le_length_padRight (count : Nat) (digits : Text) :
    count ≤ (padRight count digits).length := by
  simp only [padRight, List.length_append, List.length_replicate]
  omega

/-- Beyond the zeros that are asked for the digits do not begin with a zero. -/
theorem head_padLeft {count : Nat} {digits : Text}
    (h : count < (padLeft count digits).length) :
    (padLeft count digits).head? ≠ some (.char '0') := by
  have hnone : count - (digits.dropWhile (· == .char '0')).length = 0 := by
    simp only [padLeft, List.length_append, List.length_replicate] at h
    omega
  rw [padLeft, hnone, List.replicate_zero, List.nil_append]
  have hhead := List.head?_dropWhile_not (· == .char '0') digits
  intro hzero
  rw [hzero] at hhead
  exact absurd hhead (by decide)

/-- Beyond the zeros that are asked for the digits do not end in a zero. -/
theorem getLast_padRight {count : Nat} {digits : Text}
    (h : count < (padRight count digits).length) :
    (padRight count digits).getLast? ≠ some (.char '0') := by
  have hnone : count - (Numeral.dropEndZeros digits).length = 0 := by
    simp only [padRight, List.length_append, List.length_replicate] at h
    omega
  rw [padRight, hnone, List.replicate_zero, List.append_nil, Numeral.dropEndZeros,
    List.getLast?_reverse]
  have hhead := List.head?_dropWhile_not (· == .char '0') digits.reverse
  intro hzero
  rw [hzero] at hhead
  exact absurd hhead (by decide)

theorem isDigit_padLeft {count : Nat} {digits : Text} (h : ∀ c ∈ digits, c.isDigit = true) :
    ∀ c ∈ padLeft count digits, c.isDigit = true := by
  intro c hc
  rcases List.mem_append.1 hc with hc | hc
  · exact Double.isDigit_of_mem_zeros hc
  · exact h c ((List.dropWhile_sublist _).mem hc)

theorem isDigit_padRight {count : Nat} {digits : Text} (h : ∀ c ∈ digits, c.isDigit = true) :
    ∀ c ∈ padRight count digits, c.isDigit = true := by
  intro c hc
  rcases List.mem_append.1 hc with hc | hc
  · exact h c (Numeral.dropEndZeros_subset digits hc)
  · exact Double.isDigit_of_mem_zeros hc

/-- The digits of a number in units of the last place are cut at the point. -/
theorem splitUnits_spec (places units : Nat) :
    (∀ c ∈ (splitUnits places units).1 ++ (splitUnits places units).2, c.isDigit = true) ∧
      written (splitUnits places units).1 (splitUnits places units).2 = units / 10 ^ places := by
  obtain ⟨padded, hpadded⟩ : ∃ padded, padded =
      List.replicate (places + 1 - (Text.ofNat units).length) (.char '0') ++ Text.ofNat units :=
    ⟨_, rfl⟩
  have hsplit : splitUnits places units =
      (padded.take (padded.length - places), padded.drop (padded.length - places)) := by
    rw [hpadded]
    rfl
  have hle : places ≤ padded.length := by
    simp only [hpadded, List.length_append, List.length_replicate]
    omega
  have hvalue : Text.digitsValue padded = units := by
    rw [hpadded, Text.digitsValue_append, Text.digitsValue_zeros, Nat.mul_zero, Nat.zero_add,
      Text.digitsValue_ofNat]
  have hlength : (padded.drop (padded.length - places)).length = places := by
    rw [List.length_drop]
    omega
  rw [hsplit]
  refine ⟨fun c hc => ?_, ?_⟩
  · rw [List.take_append_drop, hpadded] at hc
    rcases List.mem_append.1 hc with hc | hc
    · exact Double.isDigit_of_mem_zeros hc
    · exact Text.isDigit_of_mem_ofNat hc
  · rw [written, List.take_append_drop, hvalue, hlength]

/-- The digits before and after the point that a pattern writes a number with. -/
structure Writes (p : DecimalPattern) (r : ℚ) (whole places : Text) : Prop where
  isDigit : ∀ c ∈ whole ++ places, c.isDigit = true
  /-- Read as a decimal numeral, the digits are the number. -/
  written : written whole places = r
  /-- There are as many places as zeros are asked for, and no zero ends what goes beyond them. -/
  le_places : p.fraction.count (.char '0') ≤ places.length
  last_places : p.fraction.count (.char '0') < places.length → places.getLast? ≠ some (.char '0')
  /-- There are as many digits before the point as zeros are asked for, and no zero begins what goes
  beyond them, unless it is all that is written. -/
  le_whole : p.whole.count (.char '0') ≤ whole.length
  head_whole : p.whole.count (.char '0') < whole.length →
    whole.head? ≠ some (.char '0') ∨ whole = [.char '0'] ∧ places = []
  /-- Something is written. -/
  nonempty : whole ≠ [] ∨ places ≠ []

namespace Writes

variable {p : DecimalPattern} {r : ℚ} {whole places : Text}

/-- The zeros that are asked for are put there, and others dropped from the ends. -/
theorem of_pad (hdigit : ∀ c ∈ whole ++ places, c.isDigit = true)
    (hwritten : DecimalPattern.written whole places = r)
    (hne : ¬ (padLeft (p.whole.count (.char '0')) whole = [] ∧
      padRight (p.fraction.count (.char '0')) places = [])) :
    p.Writes r (padLeft (p.whole.count (.char '0')) whole)
      (padRight (p.fraction.count (.char '0')) places) where
  isDigit := by
    intro c hc
    rcases List.mem_append.1 hc with hc | hc
    · exact isDigit_padLeft (fun d hd => hdigit d (List.mem_append_left _ hd)) c hc
    · exact isDigit_padRight (fun d hd => hdigit d (List.mem_append_right _ hd)) c hc
  written := by rw [written_padLeft, written_padRight, hwritten]
  le_places := le_length_padRight _ _
  last_places := getLast_padRight
  le_whole := le_length_padLeft _ _
  head_whole h := Or.inl (head_padLeft h)
  nonempty := not_and_or.1 hne

/-- A single zero is written where nothing would be left. -/
theorem of_pad_eq_nil (hwritten : DecimalPattern.written whole places = r)
    (hwhole : padLeft (p.whole.count (.char '0')) whole = [])
    (hplaces : padRight (p.fraction.count (.char '0')) places = []) : p.Writes r ['0'] [] where
  isDigit := by
    intro c hc
    obtain rfl := List.mem_singleton.1 hc
    rfl
  written := by
    rw [← written_padLeft (p.whole.count (.char '0')),
      ← written_padRight (p.fraction.count (.char '0')), hwhole,
      hplaces] at hwritten
    exact hwritten
  le_places := hplaces ▸ le_length_padRight _ _
  last_places := by simp
  le_whole := Nat.le_succ_of_le (hwhole ▸ le_length_padLeft _ _)
  head_whole _ := Or.inr ⟨rfl, rfl⟩
  nonempty := by simp

end Writes

/-- The digits in groups of the given size with commas between them, of which the first one may be
shorter; size zero stands for no groups. -/
def IsGrouped (size : Nat) (digits t : Text) : Prop :=
  if size = 0 then t = digits
  else ∃ (head : Text) (groups : List Text), digits = head ++ groups.flatten ∧
    t = head ++ groups.flatMap (.char ',' :: ·) ∧ (∀ g ∈ groups, g.length = size) ∧
    head.length ≤ size ∧ (groups ≠ [] → head ≠ [])

/-- A group that has begun is filled, and full ones follow. -/
theorem groupFrom_eq {size : Nat} (hsize : 0 < size) (room : Nat) (digits : Text) :
    groupFrom size room digits =
      if digits.length ≤ room then digits
      else digits.take room ++ .char ',' :: groupFrom size size (digits.drop room) := by
  induction digits generalizing room with
  | nil =>
      cases room <;> rfl
  | cons d rest ih =>
      cases room with
      | zero =>
          obtain ⟨n, rfl⟩ : ∃ n, size = n + 1 := ⟨size - 1, by omega⟩
          simp [groupFrom]
      | succ room =>
          rw [groupFrom, ih room]
          by_cases hle : rest.length ≤ room
          · simp [hle]
          · simp [hle]

theorem isGrouped_groupFrom {size : Nat} (hsize : 0 < size) (digits : Text) :
    IsGrouped size digits.reverse (groupFrom size size digits).reverse := by
  induction hlength : digits.length using Nat.strong_induction_on generalizing digits with
  | _ n ih =>
      subst hlength
      rw [groupFrom_eq hsize, IsGrouped, if_neg hsize.ne']
      split
      · next hle =>
          exact ⟨digits.reverse, [], by simp, by simp, by simp, by simpa using hle, by simp⟩
      · next hlt =>
          have hmore := ih (digits.drop size).length (by rw [List.length_drop]; omega) _ rfl
          rw [IsGrouped, if_neg hsize.ne'] at hmore
          obtain ⟨head, groups, hdigits, htext, hgroups, hhead, hne⟩ := hmore
          refine ⟨head, groups ++ [(digits.take size).reverse], ?_, ?_, ?_, hhead, ?_⟩
          · rw [List.flatten_append, ← List.append_assoc, ← hdigits, List.flatten_singleton,
              ← List.reverse_append, List.take_append_drop]
          · rw [List.flatMap_append, ← List.append_assoc, ← htext]
            simp
          · intro g hg
            rcases List.mem_append.1 hg with hg | hg
            · exact hgroups g hg
            · obtain rfl := List.mem_singleton.1 hg
              rw [List.length_reverse, List.length_take]
              omega
          · rintro - rfl
            cases groups with
            | nil =>
                have hnil := congrArg List.length hdigits
                simp at hnil
                omega
            | cons g groups =>
                exact hne (by simp) rfl

/-- Commas are put between groups that are counted from the end. -/
theorem isGrouped_group (size : Nat) (digits : Text) :
    IsGrouped size digits (group size digits) := by
  rw [group]
  split
  · next hzero =>
      rw [IsGrouped, if_pos hzero]
  · next hne =>
      simpa using isGrouped_groupFrom (Nat.pos_of_ne_zero hne) digits.reverse

/-- A group has as many digits as characters follow the last comma of the integer part; without a
comma there are no groups. -/
def HasGroupSize (p : DecimalPattern) (size : Nat) : Prop :=
  (.char ',' ∉ p.whole ∧ size = 0) ∨ ∃ before after : Text, p.whole = before ++ .char ',' :: after ∧
    .char ',' ∉ after ∧ size = after.length

theorem hasGroupSize_groupSize (p : DecimalPattern) : p.HasGroupSize p.groupSize := by
  rw [groupSize]
  split
  · next hmem =>
      right
      have hsplit := List.takeWhile_append_dropWhile (p := (· ≠ .char ',')) (l := p.whole.reverse)
      cases hrest : p.whole.reverse.dropWhile (· ≠ .char ',') with
      | nil =>
          have hnone := List.dropWhile_eq_nil_iff.1 hrest ',' (List.mem_reverse.2 hmem)
          simp at hnone
      | cons c rest =>
          have hhead := List.head?_dropWhile_not (· ≠ .char ',') p.whole.reverse
          rw [hrest] at hhead hsplit
          obtain rfl : c = ',' := by simpa using hhead
          refine ⟨rest.reverse, (p.whole.reverse.takeWhile (· ≠ .char ',')).reverse, ?_, ?_, ?_⟩
          · have hwhole := congrArg List.reverse hsplit
            rw [List.reverse_reverse, List.reverse_append, List.reverse_cons,
              List.append_assoc] at hwhole
            exact hwhole.symm
          · intro hcomma
            have htaken := List.mem_takeWhile_imp (List.mem_reverse.1 hcomma)
            simp at htaken
          · rw [List.length_reverse]
  · next hnone =>
      exact Or.inl ⟨hnone, rfl⟩

/-- The digits after the point, with the point if there are any. -/
def pointed (places : Text) : Text := if places = [] then [] else .char '.' :: places

/-- The digits of a number in units of the last place of the pattern. -/
theorem digits_spec (p : DecimalPattern) (units : Nat) :
    ∃ whole places grouped, p.Writes (units / 10 ^ p.fraction.length) whole places ∧
      IsGrouped p.groupSize whole grouped ∧ p.digits units = grouped ++ pointed places := by
  obtain ⟨hdigit, hwritten⟩ := splitUnits_spec p.fraction.length units
  by_cases hempty :
      padLeft (p.whole.count (.char '0')) (splitUnits p.fraction.length units).1 = [] ∧
      padRight (p.fraction.count (.char '0')) (splitUnits p.fraction.length units).2 = []
  · refine ⟨_, _, _, .of_pad_eq_nil hwritten hempty.1 hempty.2, isGrouped_group _ _, ?_⟩
    simp [digits, hempty, pointed]
  · refine ⟨_, _, _, .of_pad hdigit hwritten hempty, isGrouped_group _ _, ?_⟩
    simp only [digits, if_neg hempty, pointed]

/-- The text is that of a signed number, whose magnitude is rounded to the places of the pattern. -/
def Formats (p : DecimalPattern) (negative : Bool) (magnitude : ℚ) (t : Text) : Prop :=
  ∃ (units size : Nat) (whole places grouped : Text),
    IsHalfEven ((if p.isPercent then magnitude * 100 else magnitude) * 10 ^ p.fraction.length)
      units ∧
    p.Writes (units / 10 ^ p.fraction.length) whole places ∧
    p.HasGroupSize size ∧ IsGrouped size whole grouped ∧
    t = (if negative then [.char '-'] else []) ++ p.lead ++ grouped ++ pointed places ++ p.tail

/-- The precision is enough to put a number into units of the last place, so that it is rounded
only once. -/
theorem quantized_eq (p : DecimalPattern) {d : Decimal} (h : d.Fits) :
    p.quantized d = .ok ((if p.isPercent then { d with coefficient := d.coefficient * 100 }
      else d).rescale (-p.fraction.length)) := by
  have hpoint := h.point_lt
  have hcount := d.digitCount_mul_hundred_le
  unfold quantized precision
  rw [Decimal.scaleb_one]
  split
  · rw [Decimal.multiply_hundred h]
    exact Decimal.quantize_eq (by show d.exponent + _ < (400 : Int); omega) _
  · exact Decimal.quantize_eq (by omega) _

/-- A decimal number is formatted with its sign and its magnitude. -/
theorem formats_formatDecimal (p : DecimalPattern) {d : Decimal} (h : d.Fits) :
    ∃ t, p.formatDecimal d = .ok t ∧ p.Formats d.negative d.magnitude t := by
  obtain ⟨scaled, hscaled⟩ : ∃ scaled : Decimal, scaled =
      if p.isPercent then { d with coefficient := d.coefficient * 100 } else d := ⟨_, rfl⟩
  have hnegative : scaled.negative = d.negative := by
    rw [hscaled]
    split <;> rfl
  have hmagnitude : scaled.magnitude = if p.isPercent then d.magnitude * 100 else d.magnitude := by
    rw [hscaled]
    split
    · simp only [Decimal.magnitude]
      push_cast
      ring
    · rfl
  have hrounded := scaled.isHalfEven_rescale p.fraction.length
  rw [hmagnitude] at hrounded
  obtain ⟨whole, places, grouped, hwrites, hgrouped, hdigits⟩ :=
    p.digits_spec (scaled.rescale (-p.fraction.length)).coefficient
  refine ⟨p.signedText (scaled.rescale (-p.fraction.length)), ?_, _, _, whole, places, grouped,
    hrounded, hwrites, p.hasGroupSize_groupSize, hgrouped, ?_⟩
  · rw [formatDecimal, p.quantized_eq h, ← hscaled]
    rfl
  · rw [signedText, hdigits, ← hnegative, ← List.append_assoc]
    rfl

end DecimalPattern

namespace Double

theorem isNaN_of_isFinite {x : Float} (h : isFinite x = true) : isNaN x = false :=
  have hlt : magnitude x < infinity := of_decide_eq_true h
  decide_eq_false (not_lt.2 hlt.le)

/-- The text of a finite double after its sign is that of zero or of a numeral. -/
theorem unsignedText_of_isFinite {x : Float} (h : isFinite x = true) :
    (magnitude x = 0 ∧ unsignedText x = "0.0".toText) ∨
      (magnitude x ≠ 0 ∧ (shortest (magnitude x)).digits ≠ [] ∧
        unsignedText x = numeralText (shortest (magnitude x))) := by
  have hlt : magnitude x < infinity := of_decide_eq_true h
  rcases unsignedText_cases (isNaN_of_isFinite h) with ⟨hb, -⟩ | hzero | ⟨hpos, -, htext⟩
  · exact absurd hb hlt.ne
  · exact Or.inl hzero
  · exact Or.inr ⟨hpos.ne', digits_shortest_ne_nil hpos hlt, htext⟩

/-- A minus sign, or none, stands before a digit. -/
theorem splitSign_toText {x : Float} (h : isFinite x = true) :
    Numeral.splitSign (toText x) = (isNegative x, unsignedText x) := by
  have hhead : ∃ c rest, unsignedText x = c :: rest ∧ c.isDigit = true := by
    rcases unsignedText_of_isFinite h with ⟨-, htext⟩ | ⟨-, hne, htext⟩
    · exact ⟨'0', _, htext, by decide⟩
    · rw [htext]
      exact exists_numeralText_eq_cons (normal_shortest _) hne
  obtain ⟨c, rest, htext, hc⟩ := hhead
  rw [toText_of_isNaN_eq_false (isNaN_of_isFinite h), htext]
  cases isNegative x with
  | true =>
      rfl
  | false =>
      exact Numeral.splitSign_of_isDigit hc rest

end Double

namespace Number

/-- The number is not the value that is no number, and no infinity. -/
def IsFinite : Number → Prop
  | .int _ => True
  | .double x => Double.isFinite x = true

/-- The number is formatted with a minus sign; a double has its sign also if it is zero. -/
def isNegative : Number → Bool
  | .int n => decide (n.toInt < 0)
  | .double x => Double.isNegative x

/-- The absolute value of an integer, and of a double the decimal number that its text writes after
the sign. -/
def magnitude : Number → ℚ
  | .int n => n.toInt.natAbs
  | .double x =>
      ((Numeral.ofText? (Numeral.splitSign (Double.toText x)).2).map Numeral.value).getD 0

theorem magnitude_double {x : Float} (h : Double.isFinite x = true) :
    (Number.double x).magnitude =
      if Double.magnitude x = 0 then 0 else (Double.shortest (Double.magnitude x)).value := by
  rw [magnitude, Double.splitSign_toText h]
  rcases Double.unsignedText_of_isFinite h with ⟨hzero, htext⟩ | ⟨hne, hdigits, htext⟩
  · have hread : Numeral.ofText? "0.0".toText = some ⟨[], 0⟩ := by decide
    rw [htext, hread, if_pos hzero]
    simp [Numeral.value, Numeral.coefficient]
  · rw [htext, Double.ofText?_numeralText (Double.normal_shortest _) hdigits, if_neg hne]
    rfl

theorem magnitude_ofDouble {x : Float} (h : Double.isFinite x = true) :
    (Decimal.ofDouble x).magnitude = (Number.double x).magnitude := by
  rw [magnitude_double h]
  unfold Decimal.ofDouble
  split <;> simp [*, Numeral.value, Numeral.coefficient, Decimal.magnitude]

/-- A finite number is formatted with its sign and its magnitude. -/
theorem formats_format {n : Number} (h : n.IsFinite) (p : DecimalPattern) :
    ∃ t, p.format n = .ok t ∧ p.Formats n.isNegative n.magnitude t := by
  cases n with
  | int n =>
      have hmagnitude : (Decimal.ofInt n.toInt).magnitude = (Number.int n).magnitude :=
        mul_one _
      rw [← hmagnitude]
      exact p.formats_formatDecimal (Decimal.fits_ofInt n)
  | double x =>
      have hfinite : Double.isFinite x = true := h
      have hlt : Double.magnitude x < Double.infinity := of_decide_eq_true hfinite
      have hnan : Double.isNaN x = false := Double.isNaN_of_isFinite hfinite
      have hinfinite : Double.isInfinite x = false := decide_eq_false hlt.ne
      have hformats := p.formats_formatDecimal (Decimal.fits_ofDouble hfinite)
      rw [magnitude_ofDouble hfinite] at hformats
      simp only [DecimalPattern.format, hnan, hinfinite, Bool.false_eq_true, if_false]
      exact hformats

/-- No number is too large to be formatted. -/
theorem format_isOk (n : Number) (p : DecimalPattern) : ∃ t, p.format n = .ok t := by
  cases n with
  | int n =>
      obtain ⟨t, ht, -⟩ := formats_format (n := .int n) trivial p
      exact ⟨t, ht⟩
  | double x =>
      by_cases hfinite : Double.isFinite x = true
      · obtain ⟨t, ht, -⟩ := formats_format (n := .double x) hfinite p
        exact ⟨t, ht⟩
      · simp only [DecimalPattern.format]
        cases hnan : Double.isNaN x with
        | true =>
            exact ⟨_, rfl⟩
        | false =>
            have hinfinite : Double.isInfinite x = true := by
              have hle : ¬ Double.infinity < Double.magnitude x := of_decide_eq_false hnan
              have hge : ¬ Double.magnitude x < Double.infinity := mt decide_eq_true hfinite
              exact decide_eq_true (by omega)
            rw [hinfinite]
            exact ⟨_, rfl⟩

end Number

namespace Builtin

open DecimalPattern

/-- A text that is read as a pattern formats all numbers. -/
theorem formatBy_of_pattern {pattern : Text} {p : DecimalPattern} (h : ofText? pattern = some p)
    (n : Number) : ∃ t, p.format n = .ok t ∧ formatBy pattern n = .ok t := by
  obtain ⟨t, ht⟩ := n.format_isOk p
  refine ⟨t, ht, ?_⟩
  simp only [formatBy, h, ht]
  rfl

theorem formatBy_of_none {pattern : Text} (h : ofText? pattern = none) (n : Number) :
    formatBy pattern n = .error (.badPattern pattern) := by
  simp only [formatBy, h]

/-- Formatting by patterns.  A text is refused if it is not lead, integer part, fraction part and
tail of a pattern put together, and only then; these parts are unique.  Otherwise the magnitude of a
finite number, times one hundred if there is a percent sign in lead or tail, is rounded half to even
to the places of the fraction part.  The number is formatted as a minus sign if it has one, the
lead, digits that write the rounded magnitude, and the tail.  There are as many digits before and
after the point as the parts have zeros, and those beyond them are not zero at the ends, apart from
a single zero that is all that is written; before the point commas separate groups of as many digits
as characters follow the last comma. -/
theorem formatBy_correct (pattern : Text) {n : Number} (hfinite : n.IsFinite) :
    ((∃ fault, formatBy pattern n = .error fault) ↔
      ¬ ∃ p : DecimalPattern, p.text = pattern ∧ p.IsPattern) ∧
    (∀ fault, formatBy pattern n = .error fault → fault = .badPattern pattern) ∧
    (∀ p q : DecimalPattern, p.text = pattern → p.IsPattern → q.text = pattern → q.IsPattern →
      p = q) ∧
    ∀ p : DecimalPattern, p.text = pattern → p.IsPattern →
      ∃ t, formatBy pattern n = .ok t ∧ p.Formats n.isNegative n.magnitude t := by
  refine ⟨?_, fun fault hfault => ?_, fun p q hp hpattern hq hpattern' => ?_,
    fun p hp hpattern => ?_⟩
  · cases hread : ofText? pattern with
    | none =>
        rw [formatBy_of_none hread]
        refine ⟨fun _ => ?_, fun _ => ⟨_, rfl⟩⟩
        rintro ⟨p, hp⟩
        rw [ofText?_eq_some_iff.2 hp] at hread
        simp at hread
    | some p =>
        obtain ⟨t, -, ht⟩ := formatBy_of_pattern hread n
        rw [ht]
        simp only [reduceCtorEq, exists_false, false_iff, not_not]
        exact ⟨p, ofText?_eq_some_iff.1 hread⟩
  · cases hread : ofText? pattern with
    | none =>
        rw [formatBy_of_none hread] at hfault
        exact (Except.error.inj hfault).symm
    | some p =>
        obtain ⟨t, -, ht⟩ := formatBy_of_pattern hread n
        rw [ht] at hfault
        simp at hfault
  · have hread := ofText?_eq_some_iff.2 ⟨hp, hpattern⟩
    rw [ofText?_eq_some_iff.2 ⟨hq, hpattern'⟩] at hread
    exact (Option.some.inj hread).symm
  · obtain ⟨t, ht, hformats⟩ := n.formats_format hfinite p
    obtain ⟨t', ht', hformat⟩ := formatBy_of_pattern (ofText?_eq_some_iff.2 ⟨hp, hpattern⟩) n
    obtain rfl := Except.ok.inj (ht.symm.trans ht')
    exact ⟨t, hformat, hformats⟩

/-- A pattern with a sign of a currency, groups, an optional place and a percent sign. -/
def pricePattern : DecimalPattern := ⟨['$'], "#,##0".toText, some "0#".toText, ['%']⟩

/-- The double nearest to `-12345.67895`. -/
def price : Float := Double.ofMagnitude true 4668012723107620559

/-- Times one hundred the number is half-way between two multiples of a hundredth; the even one ends
in a zero, which is not written. -/
theorem formatBy_price :
    pricePattern.text = "$#,##0.0#%".toText ∧
      formatBy "$#,##0.0#%".toText (.double price) = .ok "-$1,234,567.9%".toText ∧
      pricePattern.Formats (Number.double price).isNegative (Number.double price).magnitude
        "-$1,234,567.9%".toText := by
  have hformat : formatBy "$#,##0.0#%".toText (.double price) = .ok "-$1,234,567.9%".toText := by
    rfl
  have hread : ofText? "$#,##0.0#%".toText = some pricePattern := by rfl
  have hfinite : (Number.double price).IsFinite := by
    show Double.isFinite price = true
    decide +kernel
  obtain ⟨htext, hpattern⟩ := ofText?_eq_some_iff.1 hread
  obtain ⟨t, ht, hformats⟩ := (formatBy_correct _ hfinite).2.2.2 _ htext hpattern
  obtain rfl := Except.ok.inj (hformat.symm.trans ht)
  exact ⟨htext, hformat, hformats⟩

end Builtin
end Stencil
