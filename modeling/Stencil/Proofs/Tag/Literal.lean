import Stencil.Proofs.Tag.Source

/-!
# String literals that are written and read again

Writing a text between quotes and reading the text between the quotes are five passes each, and each
pass works on what the one before has left.

**Argument.**  Passes one after another are one pass for all of them, as long as no pass meets what
an earlier one has put in.  When a text is written, the passes after the first look for characters
that no escape is made of (`replaceChar_writeWith`).  When it is read, the two passes for the
backslash and the quote undo theirs (`read_write`), and the characters that the other three put in
are neither backslashes nor letters (`replacePair_resolve`).

**Results.**  `Token.escape_exactly`: what five passes write, what is read of it, when that is the
text itself, and that it stands in one field.
-/

namespace Stencil

namespace Text

/-- Every occurrence of a character becomes a text. -/
def replaceChar (c : CodePoint) (r : Text) (t : Text) : Text :=
  t.flatMap fun d => if d = c then r else [d]

end Text

namespace Escape

open Text

/-- A pass for one more character, which no escape is made of, adds its escape to the others. -/
theorem replaceChar_writeWith {pairs : List (CodePoint × CodePoint)} {l r : CodePoint}
    (h : ∀ pair ∈ pairs, pair.1 ≠ r ∧ r ≠ '\\') (t : Text) :
    replaceChar r ['\\', l] (writeWith pairs t) = writeWith (pairs ++ [(l, r)]) t := by
  unfold replaceChar writeWith
  rw [List.flatMap_assoc]
  congr 1
  funext c
  cases hfind : pairs.find? (·.2 == c) with
  | some pair =>
      obtain ⟨hletter, hslash⟩ := h pair (List.mem_of_find?_eq_some hfind)
      simp [List.find?_append, hfind, hletter, hslash.symm]
  | none =>
      by_cases hc : c = r
      · subst hc
        simp [List.find?_append, hfind]
      · simp [List.find?_append, hfind, hc, Ne.symm hc]

theorem foldl_replaceChar_writeWith {done todo : List (CodePoint × CodePoint)}
    (h : (done ++ todo).Pairwise fun p q => p.1 ≠ q.2 ∧ q.2 ≠ .char '\\') (t : Text) :
    todo.foldl (fun s pair => replaceChar pair.2 ['\\', pair.1] s) (writeWith done t) =
      writeWith (done ++ todo) t := by
  induction todo generalizing done with
  | nil =>
      simp
  | cons pair todo ih =>
      have hpass : ∀ p ∈ done, p.1 ≠ pair.2 ∧ pair.2 ≠ '\\' := fun p hp =>
        (List.pairwise_append.1 h).2.2 p hp pair List.mem_cons_self
      rw [List.append_cons] at h ⊢
      rw [List.foldl_cons, replaceChar_writeWith hpass, ih h]

/-- Five passes write what is written in one. -/
theorem write_eq_foldl (t : Text) :
    write t = replacements.foldl (fun s pair => replaceChar pair.2 ['\\', pair.1] s) t := by
  have hnone : writeWith [] t = t := by simp [writeWith]
  have hpasses : replacements.foldl (fun s pair => replaceChar pair.2 ['\\', pair.1] s)
      (writeWith [] t) = writeWith ([] ++ replacements) t :=
    foldl_replaceChar_writeWith (by decide) t
  rw [hnone, List.nil_append] at hpasses
  rw [hpasses, write_eq_writeWith]

/-- The character that two characters name, if they are a backslash and a letter of the list. -/
def named? (pairs : List (CodePoint × CodePoint)) (x y : CodePoint) : Option CodePoint :=
  if x = '\\' then pairs.lookup y else none

/-- The text with the character that it names in place of each such pair, in one pass from left to
right. -/
def resolve (pairs : List (CodePoint × CodePoint)) : Text → Text
  | x :: y :: rest =>
      match named? pairs x y with
      | some c => c :: resolve pairs rest
      | none => x :: resolve pairs (y :: rest)
  | [x] => [x]
  | [] => []

theorem named?_append (pairs : List (CodePoint × CodePoint)) (l r x y : CodePoint) :
    named? (pairs ++ [(l, r)]) x y =
      (named? pairs x y).or (if x = '\\' ∧ y = l then some r else none) := by
  unfold named?
  by_cases hx : x = '\\'
  · by_cases hy : y = l
    · simp [List.lookup_append, hx, hy]
    · have hother : (y == l) = false := beq_false_of_ne hy
      simp [List.lookup_append, List.lookup_cons, hx, hy, hother]
  · simp [hx]

theorem mem_of_named? {pairs : List (CodePoint × CodePoint)} {x y c : CodePoint}
    (h : named? pairs x y = some c) : (y, c) ∈ pairs := by
  unfold named? at h
  split at h
  · obtain ⟨before, after, rfl, -⟩ := List.lookup_eq_some_iff.1 h
    simp
  · simp at h

theorem resolve_cons_of_named {pairs : List (CodePoint × CodePoint)} {x y c : CodePoint}
    (h : named? pairs x y = some c) (rest : Text) :
    resolve pairs (x :: y :: rest) = c :: resolve pairs rest := by
  simp [resolve, h]

theorem resolve_cons_of_unnamed {pairs : List (CodePoint × CodePoint)} {x y : CodePoint}
    (h : named? pairs x y = none) (rest : Text) :
    resolve pairs (x :: y :: rest) = x :: resolve pairs (y :: rest) := by
  simp [resolve, h]

theorem resolve_cons_of_ne {pairs : List (CodePoint × CodePoint)} {x : CodePoint} (h : x ≠ '\\')
    (t : Text) :
    resolve pairs (x :: t) = x :: resolve pairs t := by
  cases t with
  | nil => rfl
  | cons y rest => exact resolve_cons_of_unnamed (if_neg h) rest

/-- What the pass leaves begins as the text does, or with a character that a letter names. -/
theorem head_resolve {pairs : List (CodePoint × CodePoint)} {t : Text} {c : CodePoint}
    (h : (resolve pairs t).head? = some c) : t.head? = some c ∨ ∃ pair ∈ pairs, pair.2 = c := by
  fun_cases resolve pairs t with
  | case1 x y rest d hnamed =>
      rw [resolve_cons_of_named hnamed] at h
      exact Or.inr ⟨(y, d), mem_of_named? hnamed, Option.some.inj h⟩
  | case2 x y rest hnamed =>
      rw [resolve_cons_of_unnamed hnamed] at h
      exact Or.inl h
  | case3 x => exact Or.inl h
  | case4 => exact Or.inl h

/-- A pass for one more letter, which no other letter names, does its part of the one pass. -/
theorem replacePair_resolve {pairs : List (CodePoint × CodePoint)} {l r : CodePoint} (hl : l ≠ '\\')
    (h : ∀ pair ∈ pairs, pair.2 ≠ '\\' ∧ pair.2 ≠ l) (t : Text) :
    replacePair '\\' l r (resolve pairs t) = resolve (pairs ++ [(l, r)]) t := by
  fun_induction resolve pairs t with
  | case1 x y rest c hnamed ih =>
      have hslash : c ≠ '\\' := (h _ (mem_of_named? hnamed)).1
      have hmore : named? (pairs ++ [(l, r)]) x y = some c := by rw [named?_append, hnamed]; rfl
      rw [replacePair_cons_of_ne hslash, ih, resolve_cons_of_named hmore]
  | case2 x y rest hnamed ih =>
      have hmore : named? (pairs ++ [(l, r)]) x y = if x = '\\' ∧ y = l then some r else none := by
        rw [named?_append, hnamed]
        rfl
      -- The earlier pass leaves the letter of the new pair, so that `ih` is about the rest.
      by_cases hpair : x = '\\' ∧ y = l
      · obtain ⟨rfl, rfl⟩ := hpair
        rw [if_pos ⟨rfl, rfl⟩] at hmore
        rw [resolve_cons_of_ne hl, resolve_cons_of_ne hl, replacePair_cons_of_ne hl] at ih
        rw [resolve_cons_of_ne hl, replacePair_pair, resolve_cons_of_named hmore,
          (List.cons.inj ih).2]
      · rw [if_neg hpair] at hmore
        have hskip : x ≠ '\\' ∨ (resolve pairs (y :: rest)).head? ≠ some l := by
          refine or_iff_not_imp_left.2 fun hx hhead => ?_
          rcases head_resolve hhead with hy | ⟨pair, hpair', hresult⟩
          · exact hpair ⟨not_not.1 hx, Option.some.inj hy⟩
          · exact (h pair hpair').2 hresult
        rw [resolve_cons_of_unnamed hmore, ← ih]
        rcases hskip with hx | hhead
        · exact replacePair_cons_of_ne hx _
        · exact replacePair_cons_of_head hhead
  | case3 x => rfl
  | case4 => rfl

/-- The letters that name a character after a backslash. -/
def letters : List (CodePoint × CodePoint) := [('n', '\n'), ('t', '\t'), ('r', '\r')]

/-- The passes for the three letters are one. -/
theorem reread_eq_resolve (t : Text) : reread t = resolve letters t := by
  have hnone : resolve [] t = t := by
    fun_induction resolve [] t with
    | case1 x y rest c hnamed ih => simp [named?] at hnamed
    | case2 x y rest hnamed ih => rw [ih]
    | case3 x => rfl
    | case4 => rfl
  have hfeed : replacePair '\\' 'n' '\n' (resolve [] t) = resolve [('n', '\n')] t :=
    replacePair_resolve (by decide) (by simp) t
  have htab : replacePair '\\' 't' '\t' (resolve [('n', '\n')] t) =
      resolve [('n', '\n'), ('t', '\t')] t :=
    replacePair_resolve (by decide) (by simp) t
  rw [hnone] at hfeed
  rw [reread, hfeed, htab]
  exact replacePair_resolve (by decide) (by simp) t

end Escape

namespace Token

open Escape

/-- Escapes in a string literal, for any text.

* What stands between the quotes is what five passes over the text leave.
* What is read of it is the text with a line feed, a tab or a carriage return in place of each
  backslash with `n`, `t` or `r` after it.
* That is the text itself exactly if no backslash in it stands before one of the three letters.
* With its quotes the literal is one field. -/
theorem escape_exactly (t : Text) :
    write t = replacements.foldl
      (fun s pair => Text.replaceChar pair.2 ['\\', pair.1] s) t ∧
    read (write t) = resolve letters t ∧
    (read (write t) = t ↔ ∀ l ∈ (['n', 't', 'r'] : Text), ¬ [.char '\\', l] <:+: t) ∧
    Tag.fields (.char '"' :: write t ++ [.char '"']) =
      .ok [.char '"' :: write t ++ [.char '"']] := by
  refine ⟨write_eq_foldl t, ?_, ?_, ?_⟩
  · rw [read_write, reread_eq_resolve]
  · rw [read_write, reread_eq_iff]
  · have hwhole : ∀ f ∈ [.char '"' :: write t ++ [.char '"']], Field.IsWhole f := by
      simpa using Field.isWhole_quoted t
    have hsplit := Field.split?_joinWith hwhole
    rw [Text.joinWith_singleton] at hsplit
    rw [Tag.fields, hsplit]

/-- Of two backslashes before a letter, the second makes the pair. -/
example : resolve letters ['\\', '\\', 'n', '"'] = [.char '\\', .char '\n', .char '"'] := by decide

end Token
end Stencil
