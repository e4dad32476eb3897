import Mathlib.Data.List.Infix
import Stencil.Token.Escape

/-!
# Reading an escaped text

Escaping replaces each of the five characters by a pair, and reading replaces the five pairs one
after another.

**Argument.**  `writeWith pairs` escapes some of the characters only.  The replacements of two
backslashes and of a backslash and a quote each undo their part of the escaping
(`replacePair_writeWith_symbol`).  The replacement for a letter undoes its part too, and besides it
acts on the backslashes of the text, which are single by then (`replacePair_writeWith_letter`).

**Results.**
* `read_write`: what is read is the text after the replacements for the three letters.
* `reread_eq_iff`: it is the text itself exactly if no backslash in it stands before `n`, `t` or
  `r`.
* `not_infix_read`: no text that has been read holds such a backslash.
-/

namespace Stencil

namespace Text

theorem replacePair_cons_of_ne {a b r x : CodePoint} (h : x ≠ a) (t : Text) :
    replacePair a b r (x :: t) = x :: replacePair a b r t := by
  cases t with
  | nil => rfl
  | cons y rest => simp [replacePair, h]

theorem replacePair_cons_of_head {a b r x : CodePoint} {t : Text} (h : t.head? ≠ some b) :
    replacePair a b r (x :: t) = x :: replacePair a b r t := by
  cases t with
  | nil =>
      rfl
  | cons y rest =>
      have hy : y ≠ b := fun heq => h (congrArg some heq)
      simp [replacePair, hy]

theorem length_replacePair_le (a b r : CodePoint) (t : Text) :
    (replacePair a b r t).length ≤ t.length := by
  fun_induction replacePair a b r t with
  | case1 x y rest hpair ih =>
      simp only [List.length_cons]
      omega
  | case2 x y rest hpair ih =>
      simpa using ih
  | case3 x => exact le_rfl
  | case4 => exact le_rfl

/-- Where the pair occurs, the text gets shorter. -/
theorem length_replacePair_lt {a b : CodePoint} (r : CodePoint) {t : Text} (h : [a, b] <:+: t) :
    (replacePair a b r t).length < t.length := by
  fun_induction replacePair a b r t with
  | case1 x y rest hpair ih =>
      have hle := length_replacePair_le a b r rest
      simp only [List.length_cons]
      omega
  | case2 x y rest hpair ih =>
      rcases List.infix_cons_iff.1 h with hstart | hrest
      · obtain ⟨hx, hstart⟩ := List.cons_prefix_cons.1 hstart
        obtain ⟨hy, -⟩ := List.cons_prefix_cons.1 hstart
        exact absurd ⟨hx.symm, hy.symm⟩ hpair
      · simpa using ih hrest
  | case3 x =>
      have hlength := h.length_le
      simp at hlength
  | case4 =>
      have hlength := h.length_le
      simp at hlength

theorem replacePair_eq_self {a b : CodePoint} (r : CodePoint) {t : Text} (h : ¬ [a, b] <:+: t) :
    replacePair a b r t = t := by
  fun_induction replacePair a b r t with
  | case1 x y rest hpair =>
      obtain ⟨rfl, rfl⟩ := hpair
      exact absurd ⟨[], rest, rfl⟩ h
  | case2 x y rest hpair ih =>
      rw [ih fun hrest => h (hrest.trans (List.suffix_cons x _).isInfix)]
  | case3 x => rfl
  | case4 => rfl

theorem head_replacePair {a b r c : CodePoint} {t : Text}
    (h : (replacePair a b r t).head? = some c) : c = r ∨ t.head? = some c := by
  fun_induction replacePair a b r t with
  | case1 x y rest hpair ih => exact Or.inl (Option.some.inj h).symm
  | case2 x y rest hpair ih => exact Or.inr h
  | case3 x => exact Or.inr h
  | case4 => exact Or.inr h

/-- A replacement leaves no occurrence of its pair, and makes no occurrence of another. -/
theorem infix_of_infix_replacePair {a b c d r : CodePoint} {t : Text} (hc : c ≠ r) (hd : d ≠ r)
    (h : [c, d] <:+: replacePair a b r t) : [c, d] <:+: t ∧ ¬ (c = a ∧ d = b) := by
  fun_induction replacePair a b r t with
  | case1 x y rest hpair ih =>
      rcases List.infix_cons_iff.1 h with hstart | hrest
      · exact absurd (List.cons_prefix_cons.1 hstart).1 hc
      · obtain ⟨hoccurs, hne⟩ := ih hrest
        exact ⟨hoccurs.trans ⟨[x, y], [], by simp⟩, hne⟩
  | case2 x y rest hpair ih =>
      rcases List.infix_cons_iff.1 h with hstart | hrest
      · obtain ⟨rfl, ⟨s, hs⟩⟩ := List.cons_prefix_cons.1 hstart
        have hhead : (replacePair a b r (y :: rest)).head? = some d := by
          rw [← hs]
          rfl
        rcases head_replacePair hhead with rfl | hy
        · exact absurd rfl hd
        · obtain rfl : y = d := Option.some.inj hy
          exact ⟨⟨[], rest, rfl⟩, hpair⟩
      · obtain ⟨hoccurs, hne⟩ := ih hrest
        exact ⟨hoccurs.trans (List.suffix_cons x _).isInfix, hne⟩
  | case3 x =>
      have hlength := h.length_le
      simp at hlength
  | case4 =>
      have hlength := h.length_le
      simp at hlength

theorem mem_replacePair {a b r c : CodePoint} {t : Text} (h : c ∈ replacePair a b r t) :
    c ∈ t ∨ c = r := by
  fun_induction replacePair a b r t with
  | case1 x y rest hpair ih =>
      rcases List.mem_cons.1 h with rfl | h
      · exact Or.inr rfl
      · exact (ih h).imp_left fun hc => List.mem_cons_of_mem _ (List.mem_cons_of_mem _ hc)
  | case2 x y rest hpair ih =>
      rcases List.mem_cons.1 h with rfl | h
      · exact Or.inl List.mem_cons_self
      · exact (ih h).imp_left (List.mem_cons_of_mem _)
  | case3 x => exact Or.inl h
  | case4 => exact Or.inl h

end Text

namespace Escape

open Text

/-- Writes each character that has a pair as a backslash and its letter. -/
def writeWith (pairs : List (CodePoint × CodePoint)) (t : Text) : Text :=
  t.flatMap fun c =>
    match pairs.find? (·.2 == c) with
    | some pair => ['\\', pair.1]
    | none => [c]

theorem writeWith_cons_of_find {pairs : List (CodePoint × CodePoint)}
    {pair : CodePoint × CodePoint} {c : CodePoint}
    (h : pairs.find? (·.2 == c) = some pair) (t : Text) :
    writeWith pairs (c :: t) = .char '\\' :: pair.1 :: writeWith pairs t := by
  simp [writeWith, h]

theorem writeWith_cons_self (l c : CodePoint) (pairs : List (CodePoint × CodePoint)) (t : Text) :
    writeWith ((l, c) :: pairs) (c :: t) = .char '\\' :: l :: writeWith ((l, c) :: pairs) t :=
  writeWith_cons_of_find (List.find?_cons_of_pos (beq_self_eq_true c)) t

theorem writeWith_cons_of_find_none {pairs : List (CodePoint × CodePoint)} {c : CodePoint}
    (h : pairs.find? (·.2 == c) = none) (t : Text) :
    writeWith pairs (c :: t) = c :: writeWith pairs t := by
  simp [writeWith, h]

theorem write_eq_writeWith (t : Text) : write t = writeWith replacements t := by
  unfold write writeWith
  congr 1
  funext c
  by_cases hslash : c = '\\'
  · subst hslash
    rfl
  by_cases hquote : c = '"'
  · subst hquote
    rfl
  by_cases hfeed : c = '\n'
  · subst hfeed
    rfl
  by_cases htab : c = '\t'
  · subst htab
    rfl
  by_cases hreturn : c = '\r'
  · subst hreturn
    rfl
  simp [writeChar, replacements, hslash, hquote, hfeed, htab, hreturn, Ne.symm]

/-- The letters and the characters of the pairs, none of which is a backslash. -/
def NoSlash (pairs : List (CodePoint × CodePoint)) : Prop :=
  ∀ pair ∈ pairs, pair.1 ≠ '\\' ∧ pair.2 ≠ '\\'

theorem find_eq_none {pairs : List (CodePoint × CodePoint)} {c : CodePoint}
    (h : ∀ pair ∈ pairs, pair.2 ≠ c) :
    pairs.find? (·.2 == c) = none :=
  List.find?_eq_none.2 fun pair hpair heq => h pair hpair (beq_iff_eq.1 heq)

theorem writeWith_cons_of_ne {pairs : List (CodePoint × CodePoint)} {c : CodePoint}
    (h : ∀ pair ∈ pairs, pair.2 ≠ c) (t : Text) :
    writeWith pairs (c :: t) = c :: writeWith pairs t :=
  writeWith_cons_of_find_none (find_eq_none h) t

/-- What an escaped text begins with is a backslash or the first character of the text. -/
theorem head_writeWith {pairs : List (CodePoint × CodePoint)} {t : Text} {c : CodePoint}
    (h : (writeWith pairs t).head? = some c) :
    c = '\\' ∨ (t.head? = some c ∧ ∀ pair ∈ pairs, pair.2 ≠ c) := by
  cases t with
  | nil =>
      simp [writeWith] at h
  | cons d t =>
      cases hfind : pairs.find? (·.2 == d) with
      | some pair =>
          rw [writeWith_cons_of_find hfind] at h
          exact Or.inl (Option.some.inj h).symm
      | none =>
          rw [writeWith_cons_of_find_none hfind] at h
          obtain rfl : d = c := Option.some.inj h
          refine Or.inr ⟨rfl, fun pair hpair heq => ?_⟩
          exact List.find?_eq_none.1 hfind pair hpair (beq_iff_eq.2 heq)

section Replacement

variable {l r : CodePoint} {pairs : List (CodePoint × CodePoint)}

/-- A character that the replacement has nothing to do with is written as without it. -/
theorem replacePair_writeWith_cons (hslash : NoSlash pairs) (hl : ∀ pair ∈ pairs, pair.1 ≠ l)
    {c : CodePoint} {s t : Text} (hc : c ≠ r)
    (hback : c = '\\' → (writeWith ((l, r) :: pairs) t).head? ≠ some l)
    (ih : replacePair '\\' l r (writeWith ((l, r) :: pairs) t) = writeWith pairs s) :
    replacePair '\\' l r (writeWith ((l, r) :: pairs) (c :: t)) = writeWith pairs (c :: s) := by
  have hskip : ((l, r) :: pairs).find? (·.2 == c) = pairs.find? (·.2 == c) := by
    simp [Ne.symm hc]
  cases hfind : pairs.find? (·.2 == c) with
  | some pair =>
      have hmem := List.mem_of_find?_eq_some hfind
      have hletter : (pair.1 :: writeWith ((l, r) :: pairs) t).head? ≠ some l := fun heq =>
        hl pair hmem (Option.some.inj heq)
      rw [writeWith_cons_of_find (hskip.trans hfind), replacePair_cons_of_head hletter,
        replacePair_cons_of_ne (hslash pair hmem).1, ih, writeWith_cons_of_find hfind]
  | none =>
      rw [writeWith_cons_of_find_none (hskip.trans hfind), writeWith_cons_of_find_none hfind]
      by_cases hsame : c = '\\'
      · rw [replacePair_cons_of_head (hback hsame), ih]
      · rw [replacePair_cons_of_ne hsame, ih]

/-- The escaped character itself is restored. -/
theorem replacePair_writeWith_self (hr : ∀ pair ∈ pairs, pair.2 ≠ r) {s t : Text}
    (ih : replacePair '\\' l r (writeWith ((l, r) :: pairs) t) = writeWith pairs s) :
    replacePair '\\' l r (writeWith ((l, r) :: pairs) (r :: t)) = writeWith pairs (r :: s) := by
  rw [writeWith_cons_self, replacePair_pair, ih, writeWith_cons_of_ne hr]

/-- The replacement for a character that is its own letter undoes its part of the escaping. -/
theorem replacePair_writeWith_symbol (hslash : NoSlash pairs)
    (hl : ∀ pair ∈ pairs, pair.1 ≠ l ∧ pair.2 ≠ l) (t : Text) :
    replacePair '\\' l l (writeWith ((l, l) :: pairs) t) = writeWith pairs t := by
  induction t with
  | nil =>
      rfl
  | cons c t ih =>
      by_cases hc : c = l
      · subst hc
        exact replacePair_writeWith_self (fun pair hpair => (hl pair hpair).2) ih
      · refine replacePair_writeWith_cons hslash (fun pair hpair => (hl pair hpair).1) hc ?_ ih
        intro hback heq
        rcases head_writeWith heq with hsame | ⟨-, hne⟩
        · exact hc (hback.trans hsame.symm)
        · exact hne _ List.mem_cons_self rfl

/-- The replacement for a letter undoes its part of the escaping, and acts on the text besides. -/
theorem replacePair_writeWith_letter (hslash : NoSlash pairs) (hl : l ≠ '\\') (hr : r ≠ '\\')
    (hlr : l ≠ r) (hpairs : ∀ pair ∈ pairs, pair.1 ≠ l ∧ pair.2 ≠ l ∧ pair.2 ≠ r) (t : Text) :
    replacePair '\\' l r (writeWith ((l, r) :: pairs) t) =
      writeWith pairs (replacePair '\\' l r t) := by
  have hresult : ∀ pair ∈ pairs, pair.2 ≠ r := fun pair hpair => (hpairs pair hpair).2.2
  have hother {c : CodePoint} {rest : Text} (hc : ¬ (c = '\\' ∧ rest.head? = some l))
      (ih : replacePair '\\' l r (writeWith ((l, r) :: pairs) rest) =
        writeWith pairs (replacePair '\\' l r rest)) :
      replacePair '\\' l r (writeWith ((l, r) :: pairs) (c :: rest)) =
        writeWith pairs (c :: replacePair '\\' l r rest) := by
    by_cases hcr : c = r
    · subst hcr
      exact replacePair_writeWith_self hresult ih
    · refine replacePair_writeWith_cons hslash (fun pair hpair => (hpairs pair hpair).1) hcr ?_ ih
      intro hback heq
      rcases head_writeWith heq with hsame | ⟨hhead, -⟩
      · exact hl hsame
      · exact hc ⟨hback, hhead⟩
  -- The induction follows the replacement in the text itself: only where it takes away a pair of
  -- the text are two characters read at once.
  fun_induction replacePair '\\' l r t with
  | case1 x y rest hpair ih =>
      obtain ⟨rfl, rfl⟩ := hpair
      have hback : ∀ pair ∈ (y, r) :: pairs, pair.2 ≠ '\\' :=
        List.forall_mem_cons.2 ⟨hr, fun pair hpair => (hslash pair hpair).2⟩
      have hletter : ∀ pair ∈ (y, r) :: pairs, pair.2 ≠ y :=
        List.forall_mem_cons.2 ⟨hlr.symm, fun pair hpair => (hpairs pair hpair).2.1⟩
      rw [writeWith_cons_of_ne hback, writeWith_cons_of_ne hletter, replacePair_pair, ih,
        writeWith_cons_of_ne hresult]
  | case2 x y rest hpair ih =>
      refine hother ?_ ih
      rintro ⟨hx, hy⟩
      exact hpair ⟨hx, Option.some.inj hy⟩
  | case3 x =>
      exact hother (by simp) rfl
  | case4 =>
      rfl

end Replacement

/-- The text after the replacements for the three letters. -/
def reread (t : Text) : Text :=
  replacePair '\\' 'r' '\r' (replacePair '\\' 't' '\t' (replacePair '\\' 'n' '\n' t))

/-- What is read of an escaped text is the text after the replacements for the three letters. -/
theorem read_write (t : Text) : read (write t) = reread t := by
  have hslash : replacePair '\\' '\\' '\\' (writeWith replacements t) =
      writeWith [('"', '"'), ('n', '\n'), ('t', '\t'), ('r', '\r')] t :=
    replacePair_writeWith_symbol (by simp [NoSlash]) (by simp) t
  have hquote : replacePair '\\' '"' '"'
        (writeWith [('"', '"'), ('n', '\n'), ('t', '\t'), ('r', '\r')] t) =
      writeWith [('n', '\n'), ('t', '\t'), ('r', '\r')] t :=
    replacePair_writeWith_symbol (by simp [NoSlash]) (by simp) t
  have hfeed (s : Text) : replacePair '\\' 'n' '\n'
        (writeWith [('n', '\n'), ('t', '\t'), ('r', '\r')] s) =
      writeWith [('t', '\t'), ('r', '\r')] (replacePair '\\' 'n' '\n' s) :=
    replacePair_writeWith_letter (by simp [NoSlash]) (by decide) (by decide) (by decide) (by simp) s
  have htab (s : Text) : replacePair '\\' 't' '\t' (writeWith [('t', '\t'), ('r', '\r')] s) =
      writeWith [('r', '\r')] (replacePair '\\' 't' '\t' s) :=
    replacePair_writeWith_letter (by simp [NoSlash]) (by decide) (by decide) (by decide) (by simp) s
  have hreturn (s : Text) : replacePair '\\' 'r' '\r' (writeWith [('r', '\r')] s) =
      writeWith [] (replacePair '\\' 'r' '\r' s) :=
    replacePair_writeWith_letter (by simp [NoSlash]) (by decide) (by decide) (by decide) (by simp) s
  have hnone (s : Text) : writeWith [] s = s := by simp [writeWith]
  rw [write_eq_writeWith]
  show replacePair '\\' 'r' '\r' (replacePair '\\' 't' '\t' (replacePair '\\' 'n' '\n'
    (replacePair '\\' '"' '"' (replacePair '\\' '\\' '\\' (writeWith replacements t))))) = reread t
  rw [hslash, hquote, hfeed, htab, hreturn, hnone]
  rfl

/-- The text is left as it is exactly if it holds none of the three pairs. -/
theorem reread_eq_iff {t : Text} :
    reread t = t ↔ ∀ l ∈ (['n', 't', 'r'] : Text), ¬ [.char '\\', l] <:+: t := by
  have hfeed := length_replacePair_le '\\' 'n' '\n' t
  have htab := length_replacePair_le '\\' 't' '\t' (replacePair '\\' 'n' '\n' t)
  have hreturn := length_replacePair_le '\\' 'r' '\r'
    (replacePair '\\' 't' '\t' (replacePair '\\' 'n' '\n' t))
  constructor
  · intro h
    -- No replacement makes the text shorter, so each of them leaves it as it is.
    have hlength : (reread t).length = t.length := by rw [h]
    unfold reread at hlength
    have hn : ¬ [.char '\\', .char 'n'] <:+: t := by
      intro hpair
      have hlt := length_replacePair_lt '\n' hpair
      omega
    rw [replacePair_eq_self '\n' hn] at hlength hreturn htab
    have ht : ¬ [.char '\\', .char 't'] <:+: t := by
      intro hpair
      have hlt := length_replacePair_lt '\t' hpair
      omega
    rw [replacePair_eq_self '\t' ht] at hlength hreturn
    have hr : ¬ [.char '\\', .char 'r'] <:+: t := by
      intro hpair
      have hlt := length_replacePair_lt '\r' hpair
      omega
    simp [hn, ht, hr]
  · intro h
    have hn := h 'n' (by simp)
    have ht := h 't' (by simp)
    have hr := h 'r' (by simp)
    rw [reread, replacePair_eq_self '\n' hn, replacePair_eq_self '\t' ht,
      replacePair_eq_self '\r' hr]

/-- What has been read holds none of the three pairs. -/
theorem not_infix_read (s : Text) :
    ∀ l ∈ (['n', 't', 'r'] : Text), ¬ [.char '\\', l] <:+: read s := by
  intro l hl h
  have hout : l ≠ '\n' ∧ l ≠ '\t' ∧ l ≠ '\r' := by
    refine ⟨?_, ?_, ?_⟩
    · rintro rfl
      exact absurd hl (by decide)
    · rintro rfl
      exact absurd hl (by decide)
    · rintro rfl
      exact absurd hl (by decide)
  obtain ⟨hreturn, hr⟩ := infix_of_infix_replacePair (by decide) hout.2.2 h
  obtain ⟨htab, ht⟩ := infix_of_infix_replacePair (by decide) hout.2.1 hreturn
  obtain ⟨-, hn⟩ := infix_of_infix_replacePair (by decide) hout.1 htab
  simp only [List.mem_cons, List.not_mem_nil, or_false] at hl
  rcases hl with rfl | rfl | rfl
  · exact hn ⟨rfl, rfl⟩
  · exact ht ⟨rfl, rfl⟩
  · exact hr ⟨rfl, rfl⟩

theorem mem_read {s : Text} {c : CodePoint} (h : c ∈ read s) :
    c ∈ s ∨ c ∈ (['\\', '"', '\n', '\t', '\r'] : Text) := by
  have hstep : ∀ (pairs : List (CodePoint × CodePoint)) (s : Text),
      c ∈ pairs.foldl (fun s pair => replacePair '\\' pair.1 pair.2 s) s →
        c ∈ s ∨ c ∈ pairs.map Prod.snd := by
    intro pairs
    induction pairs with
    | nil =>
        exact fun s hc => Or.inl hc
    | cons pair pairs ih =>
        intro s hc
        rcases ih _ hc with hc | hc
        · rcases mem_replacePair hc with hc | rfl
          · exact Or.inl hc
          · exact Or.inr List.mem_cons_self
        · exact Or.inr (List.mem_cons_of_mem _ hc)
  exact hstep replacements s h

theorem mem_write {t : Text} {c : CodePoint} (h : c ∈ write t) :
    (c ∈ t ∧ c ∉ (['\n', '\t', '\r'] : Text)) ∨ c ∈ (['\\', '"', 'n', 't', 'r'] : Text) := by
  obtain ⟨d, hd, hc⟩ := List.mem_flatMap.1 h
  have hpair {l : CodePoint} (hl : l ∈ (['\\', '"', 'n', 't', 'r'] : Text))
      (hc : c ∈ (['\\', l] : Text)) :
      c ∈ (['\\', '"', 'n', 't', 'r'] : Text) := by
    rcases List.mem_cons.1 hc with rfl | hc
    · simp
    · obtain rfl := List.mem_singleton.1 hc
      exact hl
  unfold writeChar at hc
  split_ifs at hc with hslash hquote hfeed htab hreturn
  · exact Or.inr (hpair (by decide) hc)
  · exact Or.inr (hpair (by decide) hc)
  · exact Or.inr (hpair (by decide) hc)
  · exact Or.inr (hpair (by decide) hc)
  · exact Or.inr (hpair (by decide) hc)
  · obtain rfl := List.mem_singleton.1 hc
    exact Or.inl ⟨hd, by simp [hfeed, htab, hreturn]⟩

end Escape
end Stencil
