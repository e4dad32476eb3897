import Mathlib.Data.List.Forall2
import Stencil.Document.Source
import Stencil.Proofs.Action

/-!
# Where the tokens of a tag come from

Every token of a tag is read from a field, and the field is made of characters of the tag
(`fields_of_ofBody`).
-/

namespace Stencil

/-- Everything in the second of two related lists is related to something in the first. -/
theorem exists_of_forall₂ {α β : Type} {R : α → β → Prop} {as : List α} {bs : List β} {b : β}
    (h : List.Forall₂ R as bs) (hb : b ∈ bs) : ∃ a ∈ as, R a b := by
  induction h with
  | nil =>
      simp at hb
  | cons hab _ ih =>
      rcases List.mem_cons.1 hb with rfl | hb
      · exact ⟨_, List.mem_cons_self, hab⟩
      · obtain ⟨a, ha, hab⟩ := ih hb
        exact ⟨a, List.mem_cons_of_mem _ ha, hab⟩

/-- A computation for each item of a list succeeds if all of them do. -/
theorem mapM_eq_ok_iff {ε α β : Type} {f : α → Except ε β} {as : List α} {bs : List β} :
    as.mapM f = .ok bs ↔ List.Forall₂ (fun a b => f a = .ok b) as bs := by
  induction as generalizing bs with
  | nil =>
      simp [pure, Except.pure, eq_comm]
  | cons a as ih =>
      rw [List.mapM_cons, bind_eq_ok_iff, List.forall₂_cons_left_iff]
      constructor
      · rintro ⟨b, hb, h⟩
        obtain ⟨rest, hrest, h⟩ := bind_eq_ok_iff.1 h
        exact ⟨b, rest, hb, ih.1 hrest, (Except.ok.inj h).symm⟩
      · rintro ⟨b, rest, hb, hrest, rfl⟩
        exact ⟨b, hb, bind_eq_ok_iff.2 ⟨rest, ih.2 hrest, rfl⟩⟩

namespace Text

theorem isBlank_quote : isBlank '"' = false := by decide

theorem isBlank_space : isBlank ' ' = true := by decide

theorem strip_subset (t : Text) : strip t ⊆ t := by
  intro c hc
  have hmiddle := (List.dropWhile_sublist isBlank).subset (List.mem_reverse.1 hc)
  exact (List.dropWhile_sublist isBlank).subset (List.mem_reverse.1 hmiddle)

theorem mem_of_mem_wordsFrom {current t w : Text} {x : CodePoint} (h : w ∈ wordsFrom current t)
    (hx : x ∈ w) : x ∈ current ∨ x ∈ t ∧ isBlank x = false := by
  induction t generalizing current with
  | nil =>
      unfold wordsFrom at h
      split at h
      · simp at h
      · obtain rfl := List.mem_singleton.1 h
        exact .inl (List.mem_reverse.1 hx)
  | cons c rest ih =>
      have hskip : w ∈ wordsFrom [] rest → x ∈ c :: rest ∧ isBlank x = false := fun hw => by
        rcases ih hw with hnil | ⟨hrest, hblank⟩
        · exact absurd hnil List.not_mem_nil
        · exact ⟨List.mem_cons_of_mem _ hrest, hblank⟩
      unfold wordsFrom at h
      split at h
      · split at h
        · exact .inr (hskip h)
        · rcases List.mem_cons.1 h with rfl | hw
          · exact .inl (List.mem_reverse.1 hx)
          · exact .inr (hskip hw)
      · next hc =>
          rcases ih h with hcurrent | ⟨hrest, hblank⟩
          · rcases List.mem_cons.1 hcurrent with rfl | hcurrent
            · exact .inr ⟨List.mem_cons_self, by simpa using hc⟩
            · exact .inl hcurrent
          · exact .inr ⟨List.mem_cons_of_mem _ hrest, hblank⟩

/-- A word is made of characters of the text, and holds no white space. -/
theorem mem_of_mem_words {t w : Text} {x : CodePoint} (h : w ∈ words t) (hx : x ∈ w) :
    x ∈ t ∧ isBlank x = false :=
  (mem_of_mem_wordsFrom h hx).resolve_left List.not_mem_nil

end Text

namespace Field

/-- The characters that have been read of the field in progress. -/
def Mode.read : Mode → Text
  | .gap => []
  | .plain read | .quoted read | .escape read => read

theorem Mode.step_subset (c : CodePoint) (mode : Mode) :
    (∀ f ∈ (mode.step c).1, f ⊆ mode.read) ∧ (mode.step c).2.read ⊆ c :: mode.read := by
  cases mode with
  | gap =>
      by_cases hblank : Text.isBlank c = true <;> by_cases hquote : c = '"' <;>
        simp [Mode.step, Mode.read, hblank, hquote, Text.isBlank_quote]
  | plain read =>
      by_cases hblank : Text.isBlank c = true <;> by_cases hquote : c = '"' <;>
        simp [Mode.step, Mode.read, hblank, hquote, Text.isBlank_quote]
  | quoted read =>
      by_cases hquote : c = '"' <;> by_cases hslash : c = '\\' <;>
        simp [Mode.step, Mode.read, hquote, hslash]
  | escape read =>
      simp [Mode.step, Mode.read]

theorem splitFrom_cons (mode : Mode) (c : CodePoint) (rest : Text) :
    splitFrom mode (c :: rest) =
      (splitFrom (mode.step c).2 rest).map ((mode.step c).1.toList ++ ·) := by
  cases mode <;> rfl

theorem subset_of_mem_splitFrom {mode : Mode} {t f : Text} {fields : List Text}
    (h : splitFrom mode t = some fields) (hf : f ∈ fields) : f ⊆ mode.read ++ t := by
  induction t generalizing mode fields with
  | nil =>
      cases mode with
      | gap =>
          obtain rfl := Option.some.inj h
          simp at hf
      | plain read =>
          obtain rfl := Option.some.inj h
          obtain rfl := List.mem_singleton.1 hf
          simp [Mode.read]
      | quoted read =>
          simp [splitFrom] at h
      | escape read =>
          simp [splitFrom] at h
  | cons c rest ih =>
      obtain ⟨hended, hnext⟩ := mode.step_subset c
      rw [splitFrom_cons, Option.map_eq_some_iff] at h
      obtain ⟨later, hlater, rfl⟩ := h
      rcases List.mem_append.1 hf with hf | hf
      · exact List.Subset.trans (hended f (Option.mem_toList.1 hf)) (by simp)
      · intro x hx
        have hread := ih hlater hf hx
        have hc := @hnext x
        simp only [List.mem_append, List.mem_cons] at hread hc ⊢
        tauto

/-- A field is made of characters of the body. -/
theorem subset_of_mem_split {body f : Text} {fields : List Text} (h : split? body = some fields)
    (hf : f ∈ fields) : f ⊆ body :=
  subset_of_mem_splitFrom h hf

end Field

namespace Tag

/-- The tokens of a tag, with the counter of a loop as a name. -/
def tokens : Tag → List Token
  | .echo tokens => tokens
  | .loop head => head.arguments
  | .close => []

/-- A field is read as a token. -/
abbrev Reads (field : Text) (t : Token) : Prop := Token.ofField field = .ok t

theorem forall₂_reads {fields : List Text} {tokens : List Token}
    (h : fields.mapM Token.ofField = .ok tokens) : List.Forall₂ Reads fields tokens :=
  mapM_eq_ok_iff.1 h

theorem reads_counterOf {field x : Text} (h : counterOf field = .ok x) : Reads field (.var x) := by
  unfold counterOf at h
  obtain ⟨t, ht, h⟩ := bind_eq_ok_iff.1 h
  cases t with
  | var name =>
      obtain rfl := Except.ok.inj h
      exact ht
  | number n =>
      simp at h
  | text t =>
      simp at h
  | call name =>
      simp at h
  | operator op =>
      simp at h

theorem forall₂_of_ofLoop {arguments : List Text} {tag : Tag} (h : ofLoop arguments = .ok tag) :
    ∃ head, tag = .loop head ∧ List.Forall₂ Reads arguments head.arguments := by
  unfold ofLoop at h
  split at h
  · obtain ⟨x, hx, h⟩ := bind_eq_ok_iff.1 h
    obtain ⟨first, hfirst, h⟩ := bind_eq_ok_iff.1 h
    obtain ⟨last, hlast, h⟩ := bind_eq_ok_iff.1 h
    obtain rfl := Except.ok.inj h
    exact ⟨_, rfl, .cons (reads_counterOf hx) (.cons hfirst (.cons hlast .nil))⟩
  · obtain ⟨x, hx, h⟩ := bind_eq_ok_iff.1 h
    obtain ⟨first, hfirst, h⟩ := bind_eq_ok_iff.1 h
    obtain ⟨last, hlast, h⟩ := bind_eq_ok_iff.1 h
    obtain ⟨step, hstep, h⟩ := bind_eq_ok_iff.1 h
    obtain rfl := Except.ok.inj h
    exact ⟨_, rfl, .cons (reads_counterOf hx) (.cons hfirst (.cons hlast (.cons hstep .nil)))⟩
  · simp at h

theorem forall₂_of_ofEcho {body : Text} {tag : Tag} (h : ofEcho body = .ok tag) :
    ∃ fields tokens, Field.split? body = some fields ∧ fields ≠ [] ∧ tag = .echo tokens ∧
      List.Forall₂ Reads fields tokens := by
  unfold ofEcho at h
  obtain ⟨fields, hfields, h⟩ := bind_eq_ok_iff.1 h
  have hsplit : Field.split? body = some fields := by
    unfold Tag.fields at hfields
    split at hfields
    · next fields' heq =>
        rw [heq, Except.ok.inj hfields]
    · simp at hfields
  split at h
  · simp at h
  · next hne =>
      obtain ⟨tokens, htokens, h⟩ := bind_eq_ok_iff.1 h
      obtain rfl := Except.ok.inj h
      exact ⟨fields, tokens, hsplit, hne, rfl, forall₂_reads htokens⟩

theorem afterFor?_subset {body rest : Text} (h : afterFor? body = some rest) : rest ⊆ body := by
  unfold afterFor? at h
  split at h
  · split at h
    · obtain rfl := Option.some.inj h
      intro x hx
      simp [hx]
    · simp at h
  · simp at h

/-- What the body of a tag can be. -/
theorem ofBody_cases {body : Text} {tag : Tag} (h : ofBody body = .ok tag) :
    (∃ rest, rest ⊆ body ∧ ofEcho rest = .ok tag) ∨ tag = .close ∨
      ∃ rest, rest ⊆ body ∧ ofLoop (Text.words rest) = .ok tag := by
  have hstrip := Text.strip_subset body
  unfold ofBody ofStripped at h
  split at h
  · simp at h
  · next rest heq =>
      refine Or.inl ⟨rest, fun x hx => hstrip ?_, h⟩
      rw [heq]
      exact List.mem_cons_of_mem _ hx
  · split at h
    · exact Or.inr (Or.inl (Except.ok.inj h).symm)
    · split at h
      · next rest hfor =>
          exact Or.inr (Or.inr ⟨rest, List.Subset.trans (afterFor?_subset hfor) hstrip, h⟩)
      · simp at h

/-- Every token of a tag is read from a field that is made of characters of the tag. -/
theorem fields_of_ofBody {body : Text} {tag : Tag} (h : ofBody body = .ok tag) :
    ∃ fields : List Text, (∀ f ∈ fields, f ⊆ body) ∧ List.Forall₂ Reads fields tag.tokens := by
  rcases ofBody_cases h with ⟨rest, hsub, hecho⟩ | rfl | ⟨rest, hsub, hloop⟩
  · obtain ⟨fields, tokens, hsplit, -, rfl, hall⟩ := forall₂_of_ofEcho hecho
    exact ⟨fields, fun f hf => List.Subset.trans (Field.subset_of_mem_split hsplit hf) hsub, hall⟩
  · exact ⟨[], by simp, .nil⟩
  · obtain ⟨head, rfl, hall⟩ := forall₂_of_ofLoop hloop
    exact ⟨Text.words rest, fun f hf c hc => hsub (Text.mem_of_mem_words hf hc).1, hall⟩

end Tag
end Stencil
