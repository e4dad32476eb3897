import Mathlib.Data.List.Chain
import Stencil.Proofs.Number.Digits
import Stencil.Proofs.Run.Operations

/-!
# The lines of a header

What a client that cuts the header at its line ends finds in it.

**Lines.**  A text is cut at each carriage return that a line feed follows (`Text.splitLines`), and
it is `Text.Unbroken` if there is nowhere to cut it.  The header is meant as one line for the
status, one for the type of the body, one for its length if that is set, and one for each cookie
(`Context.headerLines`), with an empty line at the end.

**Argument.**  The texts that are set become parts of these lines as they are.  Before each of them
stands a character that is no carriage return, and after it one that is no line feed or the end of
its line, so that a line is unbroken exactly if the texts in it are
(`Context.unbroken_headerLines`).  The header is cut within a line that is not, and then it has more
pieces than it is meant to have lines.

**Results.**  `Context.lines_of_header`: the pieces are the lines that are meant exactly if no text
that is spliced into them is broken; this is so in every context that is reached by setting unbroken
texts.  `Context.forgedContext_not_isBlock` shows what a broken text does.
-/

namespace Stencil

namespace Text

/-- The pieces of a text between its line ends. -/
def splitLines : Text → List Text
  | c :: d :: rest =>
      if c = '\r' ∧ d = '\n' then [] :: splitLines rest
      else (splitLines (d :: rest)).modifyHead (c :: ·)
  | [c] => [[c]]
  | [] => [[]]

/-- There is no line end in a text. -/
def Unbroken (t : Text) : Prop := ¬ lineEnd <:+: t

theorem splitLines_ne_nil (t : Text) : splitLines t ≠ [] := by
  fun_induction splitLines t with
  | case1 => simp
  | case2 c d rest h ih => simpa using ih
  | case3 | case4 => simp

/-- The pieces after a line end are those of the rest of the text. -/
theorem splitLines_append_lineEnd (l t : Text) :
    splitLines (l ++ lineEnd ++ t) = splitLines l ++ splitLines t := by
  fun_induction splitLines l with
  | case1 c d rest h ih =>
      obtain ⟨rfl, rfl⟩ := h
      simpa [splitLines] using ih
  | case2 c d rest h ih =>
      obtain ⟨piece, pieces, hpieces⟩ := List.exists_cons_of_ne_nil (splitLines_ne_nil (d :: rest))
      rw [hpieces, List.cons_append, List.cons_append] at ih
      simp only [List.cons_append, splitLines, if_neg h, ih, hpieces, List.modifyHead_cons]
  | case3 c =>
      simp [splitLines, lineEnd]
  | case4 =>
      simp [splitLines, lineEnd]

theorem unbroken_iff_isChain {t : Text} :
    Unbroken t ↔ t.IsChain fun c d => ¬ (c = .char '\r' ∧ d = .char '\n') := by
  rw [List.isChain_iff_forall_rel_of_append_cons_cons, Unbroken]
  constructor
  · rintro h a b before after rfl ⟨rfl, rfl⟩
    exact h ⟨before, after, by simp [lineEnd]⟩
  · rintro h ⟨before, after, rfl⟩
    exact @h '\r' '\n' before after (by simp [lineEnd]) ⟨rfl, rfl⟩

theorem splitLines_of_unbroken {t : Text} (h : Unbroken t) : splitLines t = [t] := by
  rw [unbroken_iff_isChain] at h
  fun_induction splitLines t with
  | case1 c d rest hend ih =>
      exact absurd hend (List.isChain_cons_cons.1 h).1
  | case2 c d rest hend ih =>
      rw [ih (List.isChain_cons_cons.1 h).2]
      rfl
  | case3 | case4 => rfl

theorem length_splitLines_pos (t : Text) : 0 < (splitLines t).length :=
  List.length_pos_iff.2 (splitLines_ne_nil t)

/-- A broken text has more pieces than one. -/
theorem unbroken_of_length_splitLines {t : Text} (h : (splitLines t).length ≤ 1) :
    Unbroken t := by
  rintro ⟨before, after, rfl⟩
  rw [splitLines_append_lineEnd, List.length_append] at h
  have hbefore := length_splitLines_pos before
  have hafter := length_splitLines_pos after
  omega

/-- Lines that are put together with their ends are cut there, and wherever they are broken. -/
theorem splitLines_flatMap (lines : List Text) (t : Text) :
    splitLines (lines.flatMap (· ++ lineEnd) ++ t) = lines.flatMap splitLines ++ splitLines t := by
  induction lines with
  | nil =>
      rfl
  | cons line lines ih =>
      rw [List.flatMap_cons, List.append_assoc, splitLines_append_lineEnd, ih, List.flatMap_cons,
        List.append_assoc]

/-- Lines have at least as many pieces as they are, and more if one of them is broken. -/
theorem length_flatMap_splitLines (lines : List Text) :
    lines.length ≤ (lines.flatMap splitLines).length ∧
      ((lines.flatMap splitLines).length ≤ lines.length → ∀ line ∈ lines, Unbroken line) := by
  induction lines with
  | nil =>
      simp
  | cons line lines ih =>
      obtain ⟨hle, hunbroken⟩ := ih
      have hpos := length_splitLines_pos line
      rw [List.flatMap_cons, List.length_append, List.length_cons]
      refine ⟨by omega, fun h => List.forall_mem_cons.2 ⟨?_, hunbroken (by omega)⟩⟩
      exact unbroken_of_length_splitLines (by omega)

theorem flatMap_splitLines_of_unbroken {lines : List Text} (h : ∀ line ∈ lines, Unbroken line) :
    lines.flatMap splitLines = lines := by
  induction lines with
  | nil =>
      rfl
  | cons line lines ih =>
      obtain ⟨hline, hlines⟩ := List.forall_mem_cons.1 h
      rw [List.flatMap_cons, splitLines_of_unbroken hline, ih hlines]
      rfl

theorem notMem_ofInt (n : Int) : .char '\r' ∉ ofInt n := by
  have hdigits : .char '\r' ∉ ofNat n.natAbs := fun h => absurd (isDigit_of_mem_ofNat h) (by decide)
  unfold ofInt
  split
  · exact List.not_mem_cons_of_ne_of_not_mem (by decide) hdigits
  · exact hdigits

theorem unbroken_nil : Unbroken [] := by
  simp [unbroken_iff_isChain]

theorem unbroken_of_notMem {t : Text} (h : .char '\r' ∉ t) : Unbroken t :=
  fun hend => h (hend.subset List.mem_cons_self)

/-- A text without a carriage return does not matter before another one. -/
theorem unbroken_append_left {before after : Text} (h : .char '\r' ∉ before) :
    Unbroken (before ++ after) ↔ Unbroken after := by
  induction before with
  | nil =>
      rfl
  | cons c before ih =>
      obtain ⟨hc, hbefore⟩ := not_or.1 (List.mem_cons.not.1 h)
      rw [← ih hbefore, List.cons_append, unbroken_iff_isChain, unbroken_iff_isChain,
        List.isChain_cons]
      exact and_iff_right fun _ _ hend => hc hend.1.symm

/-- A character that belongs to no line end keeps the texts on both sides of it apart. -/
theorem unbroken_append_cons {c : CodePoint} {before after : Text} (h : c ≠ '\r') (h' : c ≠ '\n') :
    Unbroken (before ++ c :: after) ↔ Unbroken before ∧ Unbroken after := by
  simp only [unbroken_iff_isChain, List.isChain_append, List.isChain_cons]
  simp [h, h']

end Text

open Text

namespace Cookie

/-- What the header line of a cookie begins with. -/
def label : Text := "Set-Cookie: ".toText

/-- What stands between the name of a cookie and its value. -/
def opening : Text := "=\"".toText

/-- The header line of a cookie, without its end. -/
def line (c : Cookie) : Text :=
  label ++ c.name ++ opening ++ c.value ++ .char '"'
    :: limitText "Domain".toText c.domain
    ++ limitText "Path".toText c.path
    ++ limitText "Max-Age".toText (c.maxAge.map Text.ofInt)

/-- The texts of a cookie. -/
def texts (c : Cookie) : List Text :=
  [c.name, c.value] ++ c.domain.toList ++ c.path.toList

theorem headerLine_eq : headerLine = fun c => c.line ++ lineEnd := rfl

/-- A limit keeps what stands before it apart from its own text. -/
theorem unbroken_append_limitText {before label : Text} (h : .char '\r' ∉ label)
    (value : Option Text) :
    Unbroken (before ++ limitText label value) ↔
      Unbroken before ∧ ∀ t ∈ value.toList, Unbroken t := by
  cases value with
  | none =>
      simp [limitText]
  | some value =>
      have hlabel : .char '\r' ∉ .char ' ' :: label ++ [.char '='] := by simp [h]
      have hsplit : before ++ limitText label (some value) =
          before ++ .char ';' :: (.char ' ' :: label ++ [.char '='] ++ value) := by simp [limitText]
      rw [hsplit, unbroken_append_cons (by decide) (by decide), unbroken_append_left hlabel]
      simp

theorem unbroken_quoted {name value : Text} :
    Unbroken (label ++ name ++ opening ++ value ++ [.char '"']) ↔
      Unbroken name ∧ Unbroken value := by
  have hopening : opening = [.char '=', .char '"'] := by decide +kernel
  have hlabel : .char '\r' ∉ label := by decide +kernel
  have hsplit : label ++ name ++ opening ++ value ++ [.char '"'] =
      label ++ (name ++ .char '=' :: ([.char '"'] ++ (value ++ .char '"' :: []))) := by
    simp [hopening]
  rw [hsplit, unbroken_append_left hlabel, unbroken_append_cons (by decide) (by decide),
    unbroken_append_left (by decide), unbroken_append_cons (by decide) (by decide)]
  exact and_congr_right fun _ => and_iff_left unbroken_nil

/-- The line of a cookie is unbroken exactly if its texts are. -/
theorem unbroken_line {c : Cookie} : Unbroken c.line ↔ ∀ t ∈ c.texts, Unbroken t := by
  have hage : ∀ t ∈ (c.maxAge.map Text.ofInt).toList, Unbroken t := by
    cases c.maxAge <;> simp [unbroken_of_notMem (notMem_ofInt _)]
  have hline : c.line =
      label ++ c.name ++ opening ++ c.value ++ [.char '"']
        ++ limitText "Domain".toText c.domain ++ limitText "Path".toText c.path
        ++ limitText "Max-Age".toText (c.maxAge.map Text.ofInt) := by simp [line]
  rw [hline, unbroken_append_limitText (by simp), unbroken_append_limitText (by simp),
    unbroken_append_limitText (by simp), unbroken_quoted, and_iff_left hage]
  simp only [texts, List.forall_mem_append, List.forall_mem_cons, List.not_mem_nil,
    false_imp_iff, implies_true, and_true]

end Cookie

namespace Context

/-- What the line about the status begins with. -/
def statusLabel : Text := "HTTP/1.1 ".toText

/-- What the line about the type of the body begins with. -/
def typeLabel : Text := "Content-Type: ".toText

/-- What stands before the name of the character set. -/
def charsetLabel : Text := "; charset=".toText

/-- What the line about the length of the body begins with. -/
def lengthLabel : Text := "Content-Length: ".toText

/-- The line about the status, without its end. -/
def statusLine (s : Settings) : Text :=
  statusLabel ++ Text.ofInt s.statusCode ++ .char ' ' :: s.statusText

/-- The line about the type of the body, without its end. -/
def typeLine (s : Settings) : Text :=
  typeLabel ++ s.mimeType
    ++ (if "text/".toText.isPrefixOf s.mimeType then charsetLabel ++ s.charset else [])

/-- The line about the length of the body, without its end. -/
def lengthLine (n : Int) : Text := lengthLabel ++ Text.ofInt n

/-- The lines that the header is meant to have, without their ends. -/
def headerLines (c : Context) : List Text :=
  statusLine c.settings :: typeLine c.settings ::
    (c.settings.length.toList.map lengthLine ++ c.cookies.map Cookie.line)

/-- What the lines of the header begin with. -/
def labels (c : Context) : List Text :=
  statusLabel :: typeLabel ::
    (c.settings.length.toList.map (fun _ => lengthLabel) ++ c.cookies.map fun _ => Cookie.label)

/-- The texts that are spliced into the header. -/
def spliced (c : Context) : List Text :=
  c.settings.statusText :: c.settings.mimeType ::
    ((if "text/".toText.isPrefixOf c.settings.mimeType then [c.settings.charset] else [])
      ++ c.cookies.flatMap Cookie.texts)

theorem header_eq (c : Context) :
    c.header = c.headerLines.flatMap (· ++ lineEnd) ++ lineEnd := by
  have hlength (length : Option Int) :
      header { c with settings := { c.settings with length := length } } =
        statusLine c.settings ++ lineEnd ++ (typeLine c.settings ++ lineEnd)
          ++ length.toList.flatMap (fun n => lengthLine n ++ lineEnd)
          ++ c.cookies.flatMap Cookie.headerLine ++ lineEnd := by
    cases length with
    | none =>
        rfl
    | some n =>
        rw [Option.toList_some, List.flatMap_singleton]
        rfl
  have hparts : c.header = _ := hlength c.settings.length
  rw [hparts]
  simp only [headerLines, List.flatMap_cons, List.flatMap_append, List.flatMap_map,
    Cookie.headerLine_eq, List.append_assoc]

theorem forall₂_labels (c : Context) : List.Forall₂ (· <+: ·) c.labels c.headerLines := by
  have hbegin {α : Type} (label : Text) (line : α → Text) (h : ∀ a, label <+: line a)
      (values : List α) : List.Forall₂ (· <+: ·) (values.map fun _ => label) (values.map line) := by
    rw [List.forall₂_map_left_iff, List.forall₂_map_right_iff, List.forall₂_same]
    exact fun a _ => h a
  have hcookie (cookie : Cookie) : Cookie.label <+: cookie.line := by
    simp only [Cookie.line, List.append_assoc]
    exact List.prefix_append _ _
  refine .cons ?_ (.cons ?_ (List.rel_append
    (hbegin _ _ (fun n => List.prefix_append _ _) _) (hbegin _ _ hcookie _)))
  · rw [statusLine, List.append_assoc]
    exact List.prefix_append _ _
  · rw [typeLine, List.append_assoc]
    exact List.prefix_append _ _

/-- The pieces of a header are one line for each label, in their order, and after these nothing but
the empty line at the end of the header. -/
def IsBlock (c : Context) (pieces : List Text) : Prop :=
  ∃ lines, pieces = lines ++ [[], []] ∧ List.Forall₂ (· <+: ·) c.labels lines

theorem labels_ne_nil {c : Context} {label : Text} (h : label ∈ c.labels) : label ≠ [] := by
  simp only [labels, List.mem_cons, List.mem_append, List.mem_map] at h
  rcases h with rfl | rfl | ⟨_, _, rfl⟩ | ⟨_, _, rfl⟩ <;> decide

/-- The first empty line of a header is the one at its end. -/
theorem IsBlock.idxOf_nil {c : Context} {pieces : List Text} (h : c.IsBlock pieces) :
    pieces.idxOf [] = c.labels.length ∧ pieces.length = c.labels.length + 2 := by
  obtain ⟨lines, rfl, hlines⟩ := h
  have hempty : [] ∉ lines := by
    intro hmem
    obtain ⟨i, hi, heq⟩ := List.mem_iff_getElem.1 hmem
    have hlabel := hlines.get (hlines.length_eq ▸ hi) hi
    simp only [List.get_eq_getElem, heq, List.prefix_nil] at hlabel
    exact labels_ne_nil (List.getElem_mem _) hlabel
  rw [List.idxOf_append_of_notMem hempty, hlines.length_eq]
  simp

theorem unbroken_statusLine {s : Settings} :
    Unbroken (statusLine s) ↔ Unbroken s.statusText := by
  have hlabel : .char '\r' ∉ statusLabel := by decide +kernel
  have hsplit : statusLine s =
      statusLabel ++ (Text.ofInt s.statusCode ++ ([.char ' '] ++ s.statusText)) := by
    simp [statusLine]
  rw [hsplit, unbroken_append_left hlabel, unbroken_append_left (notMem_ofInt _),
    unbroken_append_left (by decide)]

theorem unbroken_typeLine {s : Settings} :
    Unbroken (typeLine s) ↔ Unbroken s.mimeType ∧
      ∀ t ∈ if "text/".toText.isPrefixOf s.mimeType then [s.charset] else [], Unbroken t := by
  have hlabel : .char '\r' ∉ typeLabel := by decide +kernel
  unfold typeLine
  split
  · obtain ⟨hcharset, hrest⟩ : charsetLabel = .char ';' :: charsetLabel.tail ∧
        .char '\r' ∉ charsetLabel.tail := by decide +kernel
    have hsplit : typeLabel ++ s.mimeType ++ (charsetLabel ++ s.charset) =
        typeLabel ++ (s.mimeType ++ .char ';' :: (charsetLabel.tail ++ s.charset)) := by
      rw [List.append_assoc, ← List.cons_append, ← hcharset]
    rw [hsplit, unbroken_append_left hlabel, unbroken_append_cons (by decide) (by decide),
      unbroken_append_left hrest, List.forall_mem_singleton]
  · rw [List.append_nil, unbroken_append_left hlabel]
    simp

theorem unbroken_lengthLine (n : Int) : Unbroken (lengthLine n) := by
  have hlabel : .char '\r' ∉ lengthLabel := by decide +kernel
  rw [lengthLine, unbroken_append_left hlabel]
  exact unbroken_of_notMem (notMem_ofInt n)

/-- The lines that are meant are unbroken exactly if the texts that are spliced into them are. -/
theorem unbroken_headerLines {c : Context} :
    (∀ line ∈ c.headerLines, Unbroken line) ↔ ∀ t ∈ c.spliced, Unbroken t := by
  simp only [headerLines, spliced, List.forall_mem_cons, List.forall_mem_append,
    List.forall_mem_map, List.forall_mem_flatMap, unbroken_statusLine, unbroken_typeLine,
    unbroken_lengthLine, Cookie.unbroken_line, implies_true, true_and, and_assoc]

theorem splitLines_header (c : Context) :
    splitLines c.header = c.headerLines.flatMap splitLines ++ [[], []] := by
  rw [header_eq, splitLines_flatMap]
  rfl

theorem splitLines_header_of_unbroken {c : Context} (h : ∀ t ∈ c.spliced, Unbroken t) :
    splitLines c.header = c.headerLines ++ [[], []] := by
  rw [splitLines_header, flatMap_splitLines_of_unbroken (unbroken_headerLines.2 h)]

/-- A header has the lines that are meant, and no others, exactly if no text that is spliced into
them is broken. -/
theorem isBlock_iff {c : Context} :
    c.IsBlock (splitLines c.header) ↔ ∀ t ∈ c.spliced, Unbroken t := by
  have hlabels := (forall₂_labels c).length_eq
  constructor
  · rintro ⟨lines, hpieces, hlines⟩
    rw [splitLines_header, List.append_cancel_right_eq] at hpieces
    refine unbroken_headerLines.1 ((length_flatMap_splitLines c.headerLines).2 ?_)
    rw [hpieces, ← hlines.length_eq, hlabels]
  · intro h
    exact ⟨c.headerLines, splitLines_header_of_unbroken h, forall₂_labels c⟩

/-- The texts that a part of the header is set to. -/
def Setting.texts : Setting → List Text
  | .charset t | .statusText t | .mimeType t => [t]
  | .statusCode _ | .length _ => []
  | .cookie value => value.texts

/-- The contexts that are reached from one with all settings at their defaults by setting the parts
of the header to texts with a property, be it from outside or by the function for the type of the
body. -/
inductive Reached (P : Text → Prop) : Context → Prop
  | start (request persistent : Index Text) (sendsHeader : Bool) :
      Reached P (.start request persistent [] { sendsHeader := sendsHeader })
  | set {c : Context} (s : Setting) (reached : Reached P c) (texts : ∀ t ∈ s.texts, P t) :
      Reached P (s.action.runIn c).2
  | call {c : Context} (x : Value) (reached : Reached P c) (text : ∀ t, x.toText = .ok t → P t) :
      Reached P ((Builtin.setMimeType.call [x]).runIn c).2

/-- The texts from which a header takes those that it splices in. -/
def texts (c : Context) : List Text :=
  c.settings.charset :: c.settings.statusText :: c.settings.mimeType ::
    c.cookies.flatMap Cookie.texts

theorem spliced_subset_texts (c : Context) : c.spliced ⊆ c.texts := by
  intro t ht
  simp only [spliced, texts, List.mem_cons, List.mem_append] at ht ⊢
  rcases ht with rfl | rfl | ht | ht
  · exact .inr (.inl rfl)
  · exact .inr (.inr (.inl rfl))
  · split at ht
    · exact .inl (List.mem_singleton.1 ht)
    · exact absurd ht List.not_mem_nil
  · exact .inr (.inr (.inr ht))

variable {P : Text → Prop}

/-- Setting a part of the header brings no texts but those that it is set to. -/
theorem texts_of_set {c : Context} {s : Setting} (h : ∀ t ∈ c.texts, P t)
    (hs : ∀ t ∈ s.texts, P t) : ∀ t ∈ (s.action.runIn c).2.texts, P t := by
  have hupdate : ∀ t ∈ (s.update c).texts, P t := by
    simp only [texts, List.forall_mem_cons] at h ⊢
    obtain ⟨hcharset, hstatus, htype, hcookies⟩ := h
    cases s with
    | charset t => exact ⟨hs t List.mem_cons_self, hstatus, htype, hcookies⟩
    | statusText t => exact ⟨hcharset, hs t List.mem_cons_self, htype, hcookies⟩
    | mimeType t => exact ⟨hcharset, hstatus, hs t List.mem_cons_self, hcookies⟩
    | statusCode code | length n => exact ⟨hcharset, hstatus, htype, hcookies⟩
    | cookie value =>
        refine ⟨hcharset, hstatus, htype, ?_⟩
        simp only [Setting.update, List.flatMap_append, List.flatMap_singleton,
          List.forall_mem_append]
        exact ⟨hcookies, hs⟩
  rw [Setting.runIn_action]
  split
  · exact h
  · split
    · exact h
    · exact hupdate

/-- The function for the type of the body sets it to the text of its value, if there is one. -/
theorem runIn_call_setMimeType (x : Value) (c : Context) :
    ((Builtin.setMimeType.call [x]).runIn c).2 =
      match x.toText with
      | .ok t => ((Setting.mimeType t).action.runIn c).2
      | .error _ => c := by
  rw [Builtin.context_call, Builtin.operations]
  cases x.toText <;> rfl

/-- A property of all default texts and of all texts that are set is one of all texts of a
context. -/
theorem Reached.texts {c : Context} (hcharset : P "UTF-8".toText) (hstatus : P "OK".toText)
    (htype : P "text/html".toText) (h : Reached P c) : ∀ t ∈ c.texts, P t := by
  induction h with
  | start request persistent sendsHeader =>
      simpa [Context.texts, Context.start] using ⟨hcharset, hstatus, htype⟩
  | set s _ hs ih =>
      exact texts_of_set ih hs
  | call x _ hx ih =>
      rw [runIn_call_setMimeType]
      cases htext : x.toText with
      | ok t =>
          exact texts_of_set ih (by simpa [Setting.texts] using hx t htext)
      | error fault =>
          exact ih

/-- What is found in a header that is cut at its line ends: one line for the status, one for the
type of the body, one for its length if that is set and one for each cookie, and then the only empty
line.

* This is so exactly if none of the texts that are spliced into the header has a line end in it.
* It is so in every context that is reached by setting texts without line ends, and then the lines
  are the whole lines that are meant. -/
theorem lines_of_header (c : Context) :
    (c.IsBlock (splitLines c.header) ↔ ∀ t ∈ c.spliced, Unbroken t) ∧
    (Reached Unbroken c → c.IsBlock (splitLines c.header) ∧
      splitLines c.header = c.headerLines ++ [[], []] ∧
      (splitLines c.header).idxOf [] = c.headerLines.length) := by
  refine ⟨isBlock_iff, fun hreached => ?_⟩
  have hspliced : ∀ t ∈ c.spliced, Unbroken t := fun t ht =>
    hreached.texts (unbroken_of_notMem (by simp)) (unbroken_of_notMem (by simp))
      (unbroken_of_notMem (by simp)) t (spliced_subset_texts c ht)
  have hblock := isBlock_iff.2 hspliced
  refine ⟨hblock, splitLines_header_of_unbroken hspliced, ?_⟩
  rw [hblock.idxOf_nil.1, (forall₂_labels c).length_eq]

/-- A context with a cookie and a length, and a line feed in the type of the body. -/
def plainContext : Context :=
  ((Builtin.setMimeType.call [.text ['a', '\n', 'b']]).runIn
    ((Setting.cookie ⟨['n'], ['v'], none, some ['d'], none⟩).action.runIn
      ((Setting.length 3).action.runIn (.start .empty .empty [] {})).2).2).2

/-- A line feed by itself is no line end. -/
theorem lines_of_plainContext :
    Reached Unbroken plainContext ∧
    splitLines plainContext.header =
      ["HTTP/1.1 200 OK".toText, "Content-Type: a\nb".toText, "Content-Length: 3".toText,
        "Set-Cookie: n=\"v\"; Domain=d".toText, [], []] ∧
    (splitLines plainContext.header).idxOf [] = 4 := by
  have hunbroken {t : Text} (h : .char '\r' ∉ t) : Unbroken t := unbroken_of_notMem h
  have hreached : Reached Unbroken plainContext := by
    refine .call _ (.set _ (.set _ (.start _ _ _) ?_) ?_) ?_
    · simp [Setting.texts]
    · simp [Setting.texts, Cookie.texts, hunbroken]
    · rintro t ⟨⟩
      exact hunbroken (by decide)
  obtain ⟨-, hlines, hfirst⟩ := (lines_of_header plainContext).2 hreached
  exact ⟨hreached, hlines.trans (by decide +kernel), hfirst⟩

/-- A context in which the type of the body has been set to a text with two line ends. -/
def forgedContext : Context :=
  ((Setting.mimeType "a\r\n\r\nb".toText).action.runIn (.start .empty .empty [] {})).2

/-- A text with line ends brings an empty line before the end of the header, and one more line after
it. -/
theorem forgedContext_not_isBlock :
    Reached (fun _ => True) forgedContext ∧
    splitLines forgedContext.header =
      ["HTTP/1.1 200 OK".toText, "Content-Type: a".toText, [], ['b'], [], []] ∧
    ¬ forgedContext.IsBlock (splitLines forgedContext.header) := by
  have hlines : splitLines forgedContext.header =
      ["HTTP/1.1 200 OK".toText, "Content-Type: a".toText, [], ['b'], [], []] := by
    decide +kernel
  refine ⟨.set _ (.start _ _ _) fun _ _ => trivial, hlines, fun hblock => ?_⟩
  have hlength := hblock.idxOf_nil.2
  rw [hlines] at hlength
  exact absurd hlength (by decide +kernel)

end Context
end Stencil
