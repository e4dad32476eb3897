import Stencil.Text.Basic

/-!
# Indexes

An index gives each of finitely many names one entry.  Its entries stand in the order of the names,
which is the order of code points, so that nothing but the entries themselves tells two indexes
apart.

**Results.**  `get?_put` and `get?_erase` say what the two changes do to every name, and
`ext_get?` that an index is known by the entries of all names.
-/

namespace Stencil

/-- Entries in the order of their names. -/
structure Index (α : Type) where
  entries : List (Text × α)
  sorted : entries.Pairwise fun a b => a.1 < b.1
deriving DecidableEq

namespace Index

variable {α : Type}

/-- There are no entries. -/
def empty : Index α := ⟨[], .nil⟩

/-- The entry of a name. -/
def get? (index : Index α) (x : Text) : Option α := index.entries.lookup x

/-- One of two different names comes before the other. -/
theorem lt_of_not_lt {x y : Text} (h : ¬ x < y) (hne : x ≠ y) : y < x := by
  induction x generalizing y with
  | nil =>
      cases y with
      | nil => exact absurd rfl hne
      | cons d y => exact absurd (List.nil_lt_cons d y) h
  | cons c x ih =>
      cases y with
      | nil => exact List.nil_lt_cons c x
      | cons d y =>
          rw [List.cons_lt_cons_iff] at h ⊢
          have hdc : d.toNat ≤ c.toNat := Nat.not_lt.1 fun hcd => h (Or.inl hcd)
          by_cases hcd : c = d
          · have hne' : x ≠ y := by simpa [hcd] using hne
            exact Or.inr ⟨hcd.symm, ih (fun hxy => h (Or.inr ⟨hcd, hxy⟩)) hne'⟩
          · have hne' : d.toNat ≠ c.toNat := fun heq => hcd (CodePoint.toNat_inj.1 heq).symm
            exact Or.inl (Nat.lt_of_le_of_ne hdc hne')

/-- Ordered entries with `a` as the one of `x`. -/
def insertEntry (x : Text) (a : α) : List (Text × α) → List (Text × α)
  | [] => [(x, a)]
  | entry :: rest =>
      if x = entry.1 then (x, a) :: rest
      else if x < entry.1 then (x, a) :: entry :: rest
      else entry :: insertEntry x a rest

theorem mem_insertEntry {x : Text} {a : α} {e : Text × α} {entries : List (Text × α)}
    (h : e ∈ insertEntry x a entries) : e = (x, a) ∨ e ∈ entries := by
  induction entries with
  | nil => simpa [insertEntry] using h
  | cons entry rest ih =>
      unfold insertEntry at h
      split at h
      · rcases List.mem_cons.1 h with h | h
        · exact Or.inl h
        · exact Or.inr (List.mem_cons_of_mem _ h)
      · split at h
        · exact List.mem_cons.1 h
        · rcases List.mem_cons.1 h with rfl | h
          · exact Or.inr List.mem_cons_self
          · exact (ih h).imp_right (List.mem_cons_of_mem _)

theorem sorted_insertEntry (x : Text) (a : α) {entries : List (Text × α)}
    (h : entries.Pairwise fun a b => a.1 < b.1) :
    (insertEntry x a entries).Pairwise fun a b => a.1 < b.1 := by
  induction entries with
  | nil => simp [insertEntry]
  | cons entry rest ih =>
      obtain ⟨hfirst, hrest⟩ := List.pairwise_cons.1 h
      unfold insertEntry
      split
      · next hx => exact List.pairwise_cons.2 ⟨fun e he => hx ▸ hfirst e he, hrest⟩
      · next hne =>
          split
          · next hlt =>
              refine List.pairwise_cons.2 ⟨fun e he => ?_, h⟩
              rcases List.mem_cons.1 he with rfl | he
              · exact hlt
              · exact List.lt_trans hlt (hfirst e he)
          · next hge =>
              have hlt : entry.1 < x := lt_of_not_lt hge hne
              refine List.pairwise_cons.2 ⟨fun e he => ?_, ih hrest⟩
              rcases mem_insertEntry he with rfl | he
              · exact hlt
              · exact hfirst e he

/-- The index with `a` as the entry of `x`. -/
def put (index : Index α) (x : Text) (a : α) : Index α :=
  ⟨insertEntry x a index.entries, sorted_insertEntry x a index.sorted⟩

/-- The index without an entry of `x`. -/
def erase (index : Index α) (x : Text) : Index α :=
  ⟨index.entries.filter (·.1 ≠ x), index.sorted.filter _⟩

/-- The names that have an entry, in order. -/
def names (index : Index α) : List Text := index.entries.map Prod.fst

/-- The index of a list of entries; of two entries of one name the later counts. -/
def ofList (entries : List (Text × α)) : Index α :=
  entries.foldl (fun index entry => index.put entry.1 entry.2) empty

@[simp] theorem get?_empty (x : Text) : (empty : Index α).get? x = none := rfl

theorem lookup_entry (x : Text) (entry : Text × α) (rest : List (Text × α)) :
    (entry :: rest).lookup x = if x = entry.1 then some entry.2 else rest.lookup x := by
  rw [List.lookup_cons]
  by_cases h : x = entry.1
  · simp [h]
  · simp [h, beq_eq_false_iff_ne.2 h]

theorem get?_put (index : Index α) (x y : Text) (a : α) :
    (index.put x a).get? y = if y = x then some a else index.get? y := by
  show (insertEntry x a index.entries).lookup y = if y = x then some a else index.entries.lookup y
  induction index.entries with
  | nil => exact lookup_entry y (x, a) []
  | cons entry rest ih => grind [insertEntry, lookup_entry]

theorem get?_erase (index : Index α) (x y : Text) :
    (index.erase x).get? y = if y = x then none else index.get? y := by
  show (index.entries.filter (·.1 ≠ x)).lookup y = if y = x then none else index.entries.lookup y
  induction index.entries with
  | nil => simp
  | cons entry rest ih => grind [lookup_entry]

/-- The names are those that have an entry. -/
theorem mem_names_iff (index : Index α) (x : Text) : x ∈ index.names ↔ index.get? x ≠ none := by
  rw [get?, Ne, List.lookup_eq_none_iff, names, List.mem_map]
  simp

theorem sorted_names (index : Index α) : index.names.Pairwise (· < ·) :=
  List.pairwise_map.2 index.sorted

theorem nodup_names (index : Index α) : index.names.Nodup := by
  refine index.sorted_names.imp ?_
  rintro x _ hlt rfl
  exact List.lt_irrefl x hlt

/-- A name before all names has no entry. -/
theorem lookup_eq_none_of_lt {x : Text} {entries : List (Text × α)}
    (h : ∀ e ∈ entries, x < e.1) : entries.lookup x = none := by
  refine List.lookup_eq_none_iff.2 fun e he => ?_
  have hne : x ≠ e.1 := fun hx => List.lt_irrefl x (by simpa [← hx] using h e he)
  simpa using hne

/-- Lists with the same entry for each name have no name before the first of the other. -/
theorem not_lt_of_lookup_eq {d e : Text × α} {s t : List (Text × α)}
    (ht : ∀ f ∈ t, e.1 < f.1) (h : (d :: s).lookup d.1 = (e :: t).lookup d.1) : ¬ d.1 < e.1 := by
  intro hlt
  have hnone : (e :: t).lookup d.1 = none := lookup_eq_none_of_lt fun f hf => by
    rcases List.mem_cons.1 hf with rfl | hf
    · exact hlt
    · exact List.lt_trans hlt (ht f hf)
  rw [hnone, lookup_entry] at h
  simp at h

/-- Ordered entries are known by the entry of each name. -/
theorem entries_ext {s t : List (Text × α)} (hs : s.Pairwise fun a b => a.1 < b.1)
    (ht : t.Pairwise fun a b => a.1 < b.1) (h : ∀ x, s.lookup x = t.lookup x) : s = t := by
  induction s generalizing t with
  | nil =>
      cases t with
      | nil => rfl
      | cons e t => simpa [lookup_entry] using h e.1
  | cons d s ih =>
      cases t with
      | nil => simpa [lookup_entry] using h d.1
      | cons e t =>
          obtain ⟨hd, hs⟩ := List.pairwise_cons.1 hs
          obtain ⟨he, ht⟩ := List.pairwise_cons.1 ht
          have hde : d.1 = e.1 := by
            by_cases hde : d.1 = e.1
            · exact hde
            · have hlt := lt_of_not_lt (not_lt_of_lookup_eq he (h d.1)) hde
              exact absurd hlt (not_lt_of_lookup_eq hd (h e.1).symm)
          have hval : d.2 = e.2 := by simpa [lookup_entry, hde] using h d.1
          have hrest : ∀ x, s.lookup x = t.lookup x := fun x => by
            by_cases hx : x = d.1
            · rw [hx, lookup_eq_none_of_lt hd, hde, lookup_eq_none_of_lt he]
            · simpa [lookup_entry, hx, hde ▸ hx] using h x
          rw [Prod.ext hde hval, ih hs ht hrest]

/-- An index is known by the entry of each name. -/
theorem ext_get? {s t : Index α} (h : ∀ x, s.get? x = t.get? x) : s = t := by
  cases s with
  | mk s hs =>
      cases t with
      | mk t ht => simpa using entries_ext hs ht h

end Index
end Stencil
