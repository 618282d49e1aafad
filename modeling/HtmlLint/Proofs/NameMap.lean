import HtmlLint.NameMap

/-!
# Maps in name order

A map holds its entries in ascending order of their names.  So it is known from what it holds under
each name, whatever the order in which the entries were stored: `NameMap.ext_get?`.
-/

namespace HtmlLint

namespace NameMap

variable {α β : Type}

/-! ## Names and values -/

/-- A name that is in a list is found. -/
private theorem lookup_eq_some_of_mem {name : String} {l : List (String × α)}
    (h : name ∈ l.map Prod.fst) :
    ∃ value, l.lookup name = some value := by
  induction l with
  | nil => cases h
  | cons e l ih =>
    rw [lookup_cons_ite]
    split
    · exact ⟨_, rfl⟩
    · rename_i hne
      rw [List.map_cons, List.mem_cons] at h
      exact ih (h.resolve_left hne)

/-- What is found is in the list. -/
private theorem mem_of_lookup_eq_some {name : String} {value : α} {l : List (String × α)}
    (h : l.lookup name = some value) :
    name ∈ l.map Prod.fst := by
  induction l with
  | nil => cases h
  | cons e l ih =>
    rw [lookup_cons_ite] at h
    rw [List.map_cons, List.mem_cons]
    split at h
    · left
      assumption
    · right
      exact ih h

/-- The names are those under which something is found. -/
theorem mem_keys_iff {m : NameMap α} {name : String} :
    name ∈ m.keys ↔ ∃ value, m.get? name = some value :=
  ⟨lookup_eq_some_of_mem, fun ⟨_, h⟩ => mem_of_lookup_eq_some h⟩

/-- A changed value is found under its old name. -/
theorem get?_mapValues (f : String → α → β) (m : NameMap α) (name : String) :
    (m.mapValues f).get? name = (m.get? name).map (f name) := by
  show (m.entries.map fun e => (e.1, f e.1 e.2)).lookup name = (m.entries.lookup name).map (f name)
  induction m.entries with
  | nil => rfl
  | cons e l ih =>
    rw [List.map_cons, lookup_cons_ite, lookup_cons_ite, ih]
    split
    · rename_i heq
      rw [heq]
      rfl
    · rfl

/-- A change of values leaves the names. -/
theorem keys_mapValues (f : String → α → β) (m : NameMap α) : (m.mapValues f).keys = m.keys := by
  simp only [keys, mapValues, List.map_map]
  rfl

/-! ## Equality -/

/-- A map is known from the values of its names. -/
theorem ext_get? {m m' : NameMap α} (hget : ∀ name, m.get? name = m'.get? name) : m = m' := by
  obtain ⟨l, h⟩ := m
  obtain ⟨l', h'⟩ := m'
  suffices hentries : l = l' by
    subst hentries
    rfl
  change ∀ name, l.lookup name = l'.lookup name at hget
  -- a name that one list holds is not smaller than the first name of the other
  have hle : ∀ {e : String × α} {rest other : List (String × α)},
      ((e :: rest).map Prod.fst).Pairwise (· < ·) →
      (∀ name, other.lookup name = (e :: rest).lookup name) →
      ∀ name ∈ other.map Prod.fst, ¬ name < e.1 := by
    intro e rest other hsorted hsame name hname hlt
    obtain ⟨value, hvalue⟩ := lookup_eq_some_of_mem hname
    rw [hsame] at hvalue
    cases List.mem_cons.mp (mem_of_lookup_eq_some hvalue) with
    | inl heq => exact String.lt_irrefl _ (heq ▸ hlt)
    | inr hmem => exact String.lt_asymm hlt ((List.pairwise_cons.mp hsorted).1 name hmem)
  induction l generalizing l' with
  | nil =>
    cases l' with
    | nil => rfl
    | cons e' l' =>
      have hfirst := hget e'.1
      rw [lookup_cons_ite, if_pos rfl] at hfirst
      cases hfirst
  | cons e l ih =>
    cases l' with
    | nil =>
      have hfirst := hget e.1
      rw [lookup_cons_ite, if_pos rfl] at hfirst
      cases hfirst
    | cons e' l' =>
      have hname : e.1 = e'.1 := by
        apply String.le_antisymm
        · exact String.not_lt.mp (hle h (fun name => (hget name).symm) e'.1 (List.mem_cons_self ..))
        · exact String.not_lt.mp (hle h' hget e.1 (List.mem_cons_self ..))
      have hvalue : e.2 = e'.2 := by
        have hfirst := hget e.1
        rw [lookup_cons_ite, lookup_cons_ite, if_pos rfl, if_pos hname] at hfirst
        exact Option.some.inj hfirst
      rw [List.map_cons, List.pairwise_cons] at h h'
      have hrest : ∀ name, l.lookup name = l'.lookup name := by
        intro name
        by_cases heq : name = e.1
        · -- the first name stands in neither of the rests
          have hnone : ∀ {rest : List (String × α)}, (∀ other ∈ rest.map Prod.fst, e.1 < other) →
              rest.lookup e.1 = none := by
            intro rest hrest
            cases hfound : rest.lookup e.1 with
            | none => rfl
            | some value =>
              exact absurd (hrest e.1 (mem_of_lookup_eq_some hfound)) (String.lt_irrefl _)
          rw [heq, hnone h.1, hnone (hname ▸ h'.1)]
        · have hlater := hget name
          rwa [lookup_cons_ite, lookup_cons_ite, if_neg heq, if_neg (hname ▸ heq)] at hlater
      rw [Prod.ext hname hvalue, ih h.2 l' h'.2 hrest]

/-- Maps that hold something under the same names have the same list of names. -/
theorem keys_eq {m : NameMap α} {m' : NameMap β} (hkeys : ∀ name, name ∈ m.keys ↔ name ∈ m'.keys) :
    m.keys = m'.keys := by
  have hsame : (m.mapValues fun _ _ => ()) = m'.mapValues fun _ _ => () := by
    apply ext_get?
    intro name
    rw [get?_mapValues, get?_mapValues]
    have hiff := hkeys name
    rw [mem_keys_iff, mem_keys_iff] at hiff
    cases hm : m.get? name <;> cases hm' : m'.get? name <;> simp_all
  rw [← keys_mapValues (fun _ _ => ()) m, hsame, keys_mapValues]

end NameMap

end HtmlLint
