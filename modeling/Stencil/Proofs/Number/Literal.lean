import Stencil.Proofs.Number.Bits
import Stencil.Proofs.Number.Shortest
import Stencil.Text.Blank

/-!
# Numbers and their literals

A number is read back from its text.

**Results.**
* `Double.ofText?_toText`: every double, be it finite or not, is read back from its text.
* `Number.ofLiteral?_toText`: so is every number, a double never being taken for an integer.
* `Number.isPlain_of_mem_toText`: the text holds ASCII letters and digits, points and minus signs.
-/

namespace Stencil

/-- The characters that the texts of numbers are made of. -/
def Text.isPlain (c : CodePoint) : Bool := c.isAlphanum || c == '.' || c == '-'

theorem Text.isPlain_of_isDigit {c : CodePoint} (h : c.isDigit = true) : isPlain c = true := by
  simp [isPlain, CodePoint.isAlphanum, h]

theorem Text.isPlain_lt {c : CodePoint} (h : isPlain c = true) : c.toNat < 128 := by
  simp only [isPlain, Bool.or_eq_true, beq_iff_eq] at h
  rcases h with (h | rfl) | rfl
  · cases c with
    | surrogate n =>
        exact Bool.noConfusion h
    | char c =>
        simp only [CodePoint.isAlphanum, CodePoint.isAlpha, CodePoint.isDigit, Char.isAlpha,
          Char.isUpper, Char.isLower, Char.isDigit, Bool.or_eq_true, Bool.and_eq_true,
          decide_eq_true_eq] at h
        have hval (n : UInt32) (hle : c.val ≤ n) (hn : n.toNat < 128) : c.toNat < 128 :=
          Nat.lt_of_le_of_lt hle hn
        rcases h with (⟨-, h⟩ | ⟨-, h⟩) | ⟨-, h⟩
        · exact hval _ h (by decide)
        · exact hval _ h (by decide)
        · exact hval _ h (by decide)
  · decide
  · decide

namespace Double

open Numeral

theorem isPlain_of_mem_ofInt {n : Int} {c : CodePoint} (h : c ∈ Text.ofInt n) :
    Text.isPlain c = true := by
  have hdigit : c ∈ Text.ofNat n.natAbs → Text.isPlain c = true := fun hc =>
    Text.isPlain_of_isDigit (Text.isDigit_of_mem_ofNat hc)
  unfold Text.ofInt at h
  split at h
  · rcases List.mem_cons.1 h with rfl | hc
    · decide
    · exact hdigit hc
  · exact hdigit h

theorem isPlain_of_mem_numeralText {n : Numeral} (hn : n.Normal) {c : CodePoint}
    (h : c ∈ numeralText n) : Text.isPlain c = true := by
  have hdigit : c ∈ n.digits → Text.isPlain c = true := fun hc =>
    Text.isPlain_of_isDigit (hn.isDigit c hc)
  have hzeros {k : Nat} : c ∈ List.replicate k (.char '0') → Text.isPlain c = true := fun hc =>
    Text.isPlain_of_isDigit (isDigit_of_mem_zeros hc)
  have hplaces {places : Text} (hsub : places ⊆ n.digits) :
      c ∈ (if places = [] then [.char '0'] else places) → Text.isPlain c = true := by
    split
    · exact fun hc => hzeros (k := 1) hc
    · exact fun hc => hdigit (hsub hc)
  unfold numeralText at h
  split at h
  · have hzero : "0.0".toText.all Text.isPlain = true := by decide
    exact List.all_eq_true.1 hzero c h
  · split at h
    · unfold positional at h
      split at h
      · rcases List.mem_append.1 h with h | h
        · rcases List.mem_append.1 h with h | h
          · have hlead : "0.".toText.all Text.isPlain = true := by decide
            exact List.all_eq_true.1 hlead c h
          · exact hzeros h
        · exact hdigit h
      · simp only [List.mem_append, List.mem_cons] at h
        rcases h with (h | h) | rfl | h
        · exact hdigit (List.mem_of_mem_take h)
        · exact hzeros h
        · decide
        · exact hplaces (List.drop_subset _ _) h
    · simp only [scientific, List.mem_append, List.mem_cons] at h
      rcases h with (h | rfl | h) | rfl | h
      · exact hdigit (List.mem_of_mem_take h)
      · decide
      · exact hplaces (List.tail_subset _) h
      · decide
      · exact isPlain_of_mem_ofInt h

theorem point_mem_numeralText (n : Numeral) : .char '.' ∈ numeralText n := by
  unfold numeralText
  split
  · decide
  · split
    · unfold positional
      split
      · simp
      · simp
    · simp [scientific]

/-- The text of a numeral begins with a digit. -/
theorem exists_numeralText_eq_cons {n : Numeral} (hn : n.Normal) (hne : n.digits ≠ []) :
    ∃ c rest, numeralText n = c :: rest ∧ c.isDigit = true := by
  obtain ⟨digits, point⟩ := n
  cases digits with
  | nil =>
      exact absurd rfl hne
  | cons d digits =>
      have hd : d.isDigit = true := hn.isDigit d List.mem_cons_self
      unfold numeralText
      rw [if_neg hne]
      split
      · unfold positional
        split
        · exact ⟨'0', _, rfl, by decide⟩
        · next hpoint =>
            obtain ⟨k, hk⟩ : ∃ k, point.toNat = k + 1 := ⟨point.toNat - 1, by
              simp only at hpoint
              omega⟩
            simp only [hk, List.take_succ_cons, List.cons_append]
            exact ⟨d, _, rfl, hd⟩
      · exact ⟨d, _, rfl, hd⟩

/-- A numeral with an optional minus sign is read as the double nearest to it. -/
theorem ofText?_signed (negative : Bool) {body : Text} {n : Numeral}
    (hhead : ∃ c rest, body = c :: rest ∧ c.isDigit = true)
    (hread : Numeral.ofText? body = some n) :
    ofText? (if negative = true then .char '-' :: body else body) =
      some (ofMagnitude negative (ofNumeral n)) := by
  obtain ⟨c, rest, rfl, hc⟩ := hhead
  have hsplit : splitSign (if negative = true then .char '-' :: c :: rest else c :: rest) =
      (negative, c :: rest) := by
    cases negative with
    | true => rfl
    | false => exact splitSign_of_isDigit hc rest
  have hnan : c :: rest ≠ "NaN".toText := by
    intro heq
    obtain ⟨rfl, -⟩ := List.cons.inj heq
    exact absurd hc (by decide)
  have hinfinity : c :: rest ≠ "Infinity".toText := by
    intro heq
    obtain ⟨rfl, -⟩ := List.cons.inj heq
    exact absurd hc (by decide)
  simp only [ofText?, hsplit, if_neg hnan, if_neg hinfinity, hread, Option.map_some]

/-- What stands after the sign in the text of a number. -/
def unsignedText (x : Float) : Text :=
  if isInfinite x then "Infinity".toText
  else if magnitude x = 0 then "0.0".toText
  else numeralText (shortest (magnitude x))

theorem toText_of_isNaN_eq_false {x : Float} (h : isNaN x = false) :
    toText x = if isNegative x = true then .char '-' :: unsignedText x else unsignedText x := by
  simp only [toText, h, Bool.false_eq_true, if_false, unsignedText]

/-- A double that is a number is infinite, zero, or written by its shortest numeral. -/
theorem unsignedText_cases {x : Float} (hnan : isNaN x = false) :
    (magnitude x = infinity ∧ unsignedText x = "Infinity".toText) ∨
      (magnitude x = 0 ∧ unsignedText x = "0.0".toText) ∨
      (0 < magnitude x ∧ magnitude x < infinity ∧
        unsignedText x = numeralText (shortest (magnitude x))) := by
  have hle : ¬ infinity < magnitude x := of_decide_eq_false hnan
  by_cases hinfinite : magnitude x = infinity
  · exact Or.inl ⟨hinfinite, by simp [unsignedText, isInfinite, hinfinite]⟩
  · by_cases hzero : magnitude x = 0
    · have hne : ¬ (0 : Nat) = infinity := by decide
      exact Or.inr (Or.inl ⟨hzero, by simp [unsignedText, isInfinite, hzero, hne]⟩)
    · exact Or.inr (Or.inr ⟨by omega, by omega, by
        simp [unsignedText, isInfinite, hinfinite, hzero]⟩)

/-- A double is read back from its text. -/
theorem ofText?_toText (x : Float) : ofText? (toText x) = some x := by
  cases hnan : isNaN x with
  | true =>
      have htext : toText x = "NaN".toText := by simp only [toText, hnan, if_true]
      rw [htext, eq_nan_of_isNaN hnan]
      rfl
  | false =>
      have hsame := ofMagnitude_magnitude x
      rw [toText_of_isNaN_eq_false hnan]
      rcases unsignedText_cases hnan with ⟨hb, htext⟩ | ⟨hb, htext⟩ | ⟨hpos, hfinite, htext⟩
      · rw [htext]
        rw [hb] at hsame
        rw [← hsame]
        cases isNegative x <;> rfl
      · have hhead : ∃ c rest, "0.0".toText = c :: rest ∧ c.isDigit = true :=
          ⟨'0', _, rfl, by decide⟩
        rw [htext, ofText?_signed (isNegative x) hhead (n := ⟨[], 0⟩) (by decide)]
        rw [hb] at hsame
        exact congrArg some hsame
      · have hread := ofText?_numeralText (normal_shortest (magnitude x))
          (digits_shortest_ne_nil hpos hfinite)
        have hhead := exists_numeralText_eq_cons (normal_shortest (magnitude x))
          (digits_shortest_ne_nil hpos hfinite)
        rw [htext, ofText?_signed (isNegative x) hhead hread, ofNumeral_shortest hpos hfinite,
          hsame]

theorem isPlain_of_mem_toText {x : Float} {c : CodePoint} (h : c ∈ toText x) :
    Text.isPlain c = true := by
  cases hnan : isNaN x with
  | true =>
      have hword : "NaN".toText.all Text.isPlain = true := by decide
      simp only [toText, hnan, if_true] at h
      exact List.all_eq_true.1 hword c h
  | false =>
      have hbody : c ∈ unsignedText x → Text.isPlain c = true := by
        intro hc
        rcases unsignedText_cases hnan with ⟨-, htext⟩ | ⟨-, htext⟩ | ⟨-, -, htext⟩
        · have hword : "Infinity".toText.all Text.isPlain = true := by decide
          exact List.all_eq_true.1 hword c (htext ▸ hc)
        · have hword : "0.0".toText.all Text.isPlain = true := by decide
          exact List.all_eq_true.1 hword c (htext ▸ hc)
        · exact isPlain_of_mem_numeralText (normal_shortest _) (htext ▸ hc)
      rw [toText_of_isNaN_eq_false hnan] at h
      split at h
      · rcases List.mem_cons.1 h with rfl | hc
        · decide
        · exact hbody hc
      · exact hbody h

/-- The text of a double holds a character that no integer is written with. -/
theorem exists_mem_toText (x : Float) :
    ∃ c ∈ toText x, c.isDigit = false ∧ c ≠ '-' ∧ c ≠ '+' := by
  cases hnan : isNaN x with
  | true =>
      refine ⟨'N', ?_, by decide, by decide, by decide⟩
      simp only [toText, hnan, if_true]
      decide
  | false =>
      have hmem {c : CodePoint} (hc : c ∈ unsignedText x) : c ∈ toText x := by
        rw [toText_of_isNaN_eq_false hnan]
        split
        · exact List.mem_cons_of_mem _ hc
        · exact hc
      rcases unsignedText_cases hnan with ⟨-, htext⟩ | ⟨-, htext⟩ | ⟨-, -, htext⟩
      · refine ⟨'I', hmem ?_, by decide, by decide, by decide⟩
        rw [htext]
        decide
      · refine ⟨'.', hmem ?_, by decide, by decide, by decide⟩
        rw [htext]
        decide
      · refine ⟨'.', hmem ?_, by decide, by decide, by decide⟩
        rw [htext]
        exact point_mem_numeralText _

end Double

namespace Numeral

theorem mem_splitSign {t : Text} {c : CodePoint} (hc : c ∈ t) (hminus : c ≠ '-') (hplus : c ≠ '+') :
    c ∈ (splitSign t).2 := by
  unfold splitSign
  split
  · exact (List.mem_cons.1 hc).resolve_left hminus
  · exact (List.mem_cons.1 hc).resolve_left hplus
  · exact hc

theorem integer?_eq_none {t : Text} {c : CodePoint} (hc : c ∈ t) (hdigit : c.isDigit = false)
    (hminus : c ≠ '-') (hplus : c ≠ '+') : integer? t = none := by
  have hmem := mem_splitSign hc hminus hplus
  have hnot : ¬ ((splitSign t).2 ≠ [] ∧ (splitSign t).2.all CodePoint.isDigit = true) := by
    rintro ⟨-, hall⟩
    have htrue := List.all_eq_true.1 hall c hmem
    rw [hdigit] at htrue
    exact Bool.false_ne_true htrue
  simp only [integer?, if_neg hnot]

end Numeral

namespace Number

/-- A number is read back from its text. -/
theorem ofLiteral?_toText (n : Number) : ofLiteral? n.toText = .ok (some n) := by
  cases n with
  | int n =>
      simp [ofLiteral?, toText, int64?_ofInt]
  | double x =>
      obtain ⟨c, hc, hdigit, hminus, hplus⟩ := Double.exists_mem_toText x
      have hint : int64? (Double.toText x) = .ok none := by
        simp [int64?, Numeral.integer?_eq_none hc hdigit hminus hplus]
      simp [ofLiteral?, toText, hint, Double.ofText?_toText]

theorem isPlain_of_mem_toText {n : Number} {c : CodePoint} (h : c ∈ n.toText) :
    Text.isPlain c = true := by
  cases n with
  | int n =>
      exact Double.isPlain_of_mem_ofInt h
  | double x =>
      exact Double.isPlain_of_mem_toText h

theorem toText_ne_nil (n : Number) : n.toText ≠ [] := by
  intro hnil
  have hread := ofLiteral?_toText n
  rw [hnil] at hread
  have hnone : ofLiteral? [] = .ok none := by decide
  simp [hnone] at hread

end Number
end Stencil
