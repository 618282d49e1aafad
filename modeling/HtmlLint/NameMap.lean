/-! # Maps keyed by names

A `NameMap` holds at most one value per name, in ascending order of the names.  Everything that is
looked up by name and listed in name order is one: element definitions, rule settings, tables of a
configuration file. -/

namespace HtmlLint

/-- Entries in ascending order of their names, so that every name occurs once. -/
structure NameMap (α : Type) where
  entries : List (String × α)
  /-- each name is smaller than all that come after it -/
  ascending : (entries.map Prod.fst).Pairwise (· < ·)
  deriving DecidableEq

namespace NameMap

variable {α β : Type}

/-- The map without entries. -/
def empty : NameMap α :=
  ⟨[], .nil⟩

instance : Inhabited (NameMap α) :=
  ⟨empty⟩

/-- The number of entries. -/
def size (m : NameMap α) : Nat :=
  m.entries.length

/-- The names in order. -/
def keys (m : NameMap α) : List String :=
  m.entries.map Prod.fst

/-- The value stored under a name. -/
def get? (m : NameMap α) (name : String) : Option α :=
  m.entries.lookup name

/-- The name has a value. -/
def contains (m : NameMap α) (name : String) : Bool :=
  (m.get? name).isSome

/-- Put an entry at its place in an ordered list, replacing the entry of the same name. -/
def insertEntry (name : String) (value : α) : List (String × α) → List (String × α)
  | [] => [(name, value)]
  | (k, v) :: rest =>
    if name = k then (name, value) :: rest
    else if name < k then (name, value) :: (k, v) :: rest
    else (k, v) :: insertEntry name value rest

/-- A list that gets an entry has no other new name. -/
private theorem mem_insertEntry {name other : String} {value : α} {l : List (String × α)}
    (h : other ∈ (insertEntry name value l).map Prod.fst) :
    other = name ∨ other ∈ l.map Prod.fst := by
  induction l with
  | nil => exact .inl (List.mem_singleton.mp h)
  | cons e l ih =>
    simp only [insertEntry] at h
    split at h
    · exact (List.mem_cons.mp h).imp_right (List.mem_cons_of_mem _)
    · split at h
      · exact List.mem_cons.mp h
      · cases List.mem_cons.mp h with
        | inl heq => exact .inr (heq ▸ List.mem_cons_self ..)
        | inr hmem => exact (ih hmem).imp_right (List.mem_cons_of_mem _)

/-- An ordered list that gets an entry stays ordered. -/
private theorem ascending_insertEntry (name : String) (value : α) {l : List (String × α)}
    (h : (l.map Prod.fst).Pairwise (· < ·)) :
    ((insertEntry name value l).map Prod.fst).Pairwise (· < ·) := by
  induction l with
  | nil => exact List.pairwise_singleton ..
  | cons e l ih =>
    rw [List.map_cons, List.pairwise_cons] at h
    simp only [insertEntry]
    split
    · rename_i heq
      rw [heq]
      exact List.pairwise_cons.mpr h
    · rename_i hne
      split
      · rename_i hlt
        refine List.pairwise_cons.mpr ⟨?_, List.pairwise_cons.mpr h⟩
        intro other hother
        cases List.mem_cons.mp hother with
        | inl heq => rw [heq]; exact hlt
        | inr hmem => exact String.lt_trans hlt (h.1 other hmem)
      · -- what is neither equal nor smaller is greater
        rename_i hnlt
        have hlt : e.1 < name := by
          apply Decidable.byContradiction
          intro hngt
          exact hne (String.le_antisymm (String.not_lt.mp hngt) (String.not_lt.mp hnlt))
        refine List.pairwise_cons.mpr ⟨?_, ih h.2⟩
        intro other hother
        cases mem_insertEntry hother with
        | inl heq => rw [heq]; exact hlt
        | inr hmem => exact h.1 other hmem

/-- Store a value under a name, replacing the one stored before. -/
def insert (m : NameMap α) (name : String) (value : α) : NameMap α :=
  ⟨insertEntry name value m.entries, ascending_insertEntry name value m.ascending⟩

/-- The map of a list of entries; a later entry replaces an earlier one of the same name. -/
def ofList (entries : List (String × α)) : NameMap α :=
  entries.foldl (fun m e => m.insert e.1 e.2) empty

/-- The same names with other values. -/
def mapValues (f : String → α → β) (m : NameMap α) : NameMap β :=
  ⟨m.entries.map fun e => (e.1, f e.1 e.2), by rw [List.map_map]; exact m.ascending⟩

/-- Each name is smaller than the next one. -/
def areAscending : List String → Bool
  | name :: next :: names => name < next && areAscending (next :: names)
  | _ => true

/-- To see that names ascend it is enough to compare neighbours. -/
theorem pairwise_of_areAscending {names : List String} (h : areAscending names = true) :
    names.Pairwise (· < ·) := by
  induction names with
  | nil => exact .nil
  | cons name names ih =>
    cases names with
    | nil => exact List.pairwise_singleton ..
    | cons next names =>
      simp only [areAscending, Bool.and_eq_true, decide_eq_true_eq] at h
      have hlater := ih h.2
      refine List.pairwise_cons.mpr ⟨fun other hother => ?_, hlater⟩
      cases List.mem_cons.mp hother with
      | inl heq => rw [heq]; exact h.1
      | inr hmem => exact String.lt_trans h.1 ((List.pairwise_cons.mp hlater).1 other hmem)

@[simp] theorem get?_empty (name : String) : (empty : NameMap α).get? name = none := rfl

/-- The first entry of a name is the one that is found. -/
theorem lookup_cons_ite (other k : String) (v : α) (l : List (String × α)) :
    List.lookup other ((k, v) :: l) = if other = k then some v else l.lookup other := by
  by_cases h : other = k
  · simp [h]
  · simp [List.lookup_cons, beq_eq_false_iff_ne.mpr h, h]

/-- An entry that is put in is found, and the others are found as before. -/
private theorem lookup_insertEntry (name other : String) (value : α) (l : List (String × α)) :
    (insertEntry name value l).lookup other = if other = name then some value
      else l.lookup other := by
  induction l with
  | nil => simp [insertEntry, lookup_cons_ite]
  | cons e l ih =>
    obtain ⟨k, v⟩ := e
    simp only [insertEntry]
    split
    · rename_i hk
      subst hk
      simp only [lookup_cons_ite]
      split <;> rfl
    · rename_i hk
      split
      · rw [lookup_cons_ite]
      · simp only [lookup_cons_ite, ih]
        by_cases h : other = k
        · simp [h, Ne.symm hk]
        · simp [h]

/-- Storing under a name changes that name's value and no other. -/
theorem get?_insert (m : NameMap α) (name other : String) (value : α) :
    (m.insert name value).get? other = if other = name then some value else m.get? other :=
  lookup_insertEntry name other value m.entries

end NameMap

end HtmlLint
