import Stencil.Token.Source

/-!
# Tokens that have been read

What is known of a token because a field was read as it: names are names, the name of a variable is
no numeric literal, and the text of a text literal is what some text is read as.
-/

namespace Stencil
namespace Token

/-- A token that some field is read as. -/
def Readable : Token → Prop
  | .var x => isName x = true ∧ Number.ofLiteral? x = .ok none
  | .call x => isName x = true
  | .text t => ∃ body, Escape.read body = t
  | _ => True

/-- What a field can be read as. -/
theorem ofField_cases {field : Text} {t : Token} (h : ofField field = .ok t) :
    (∃ n, t = .number n ∧ Number.ofLiteral? field = .ok (some n)) ∨
    (∃ x, t = .call x ∧ field = .char '@' :: x ∧ isName x = true) ∨
    (∃ op, t = .operator op ∧ Operator.ofText? field = some op) ∨
    (∃ body, t = .text (Escape.read body) ∧ unquoted? field = some body) ∨
    (t = .var field ∧ isName field = true ∧ Number.ofLiteral? field = .ok none) := by
  unfold ofField at h
  split at h
  · simp at h
  · next n hnumber =>
      exact .inl ⟨n, (Except.ok.inj h).symm, hnumber⟩
  · next hliteral =>
      unfold ofWord at h
      split at h
      · next name =>
          split at h
          · next hname =>
              exact .inr (.inl ⟨name, (Except.ok.inj h).symm, rfl, hname⟩)
          · simp at h
      · split at h
        · next op hop =>
            exact .inr (.inr (.inl ⟨op, (Except.ok.inj h).symm, hop⟩))
        · next body _ hbody =>
            exact .inr (.inr (.inr (.inl ⟨body, (Except.ok.inj h).symm, hbody⟩)))
        · split at h
          · next hname =>
              exact .inr (.inr (.inr (.inr ⟨(Except.ok.inj h).symm, hname, hliteral⟩)))
          · simp at h

theorem readable_of_ofField {field : Text} {t : Token} (h : ofField field = .ok t) :
    t.Readable := by
  obtain ⟨n, rfl, -⟩ | ⟨x, rfl, -, hname⟩ | ⟨op, rfl, -⟩ | ⟨body, rfl, -⟩ | ⟨rfl, hvar⟩ :=
    ofField_cases h
  · trivial
  · exact hname
  · trivial
  · exact ⟨body, rfl⟩
  · exact hvar

end Token
end Stencil
