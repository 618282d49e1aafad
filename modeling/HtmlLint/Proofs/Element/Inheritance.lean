import HtmlLint.Element.Vocabulary
import HtmlLint.Proofs.NameMap

/-!
# Following what definitions inherit

The way from a definition to what it inherits is followed once for each name: what is known about a
name is taken from there, wherever the way comes from.  `Definitions.resolve` follows the whole way
each time.  Both come to the same, in definitions and in errors (`resolveInto_spec`), so a
vocabulary holds what `resolve` makes of each name, whatever the order in which the names were taken
(`get?_of_resolveAll`).

What carries this is `IsComplete`: with a name all that it inherits is known.  So a name that is
passed on the way but not known yet cannot be one that a known name leads to.
-/

namespace HtmlLint

namespace Definitions

variable {defs done : Definitions}

/-- The definition of a name with everything it inherits, if nothing is known yet.  `chain` holds
the names passed on the way. -/
def resolve (defs : Definitions) (chain : List String) (name : String) :
    Except InheritanceError ElementDefinition :=
  if _hc : chain.contains name then .error (.cycle (chain ++ [name]))
  else
    match _h : defs.get? name with
    | none => .error (.unknownBase (chain.getLast?.getD "") name)
    | some d =>
      match d.inherits with
      | none => .ok d
      | some base => (resolve defs (chain ++ [name]) base).map d.layeredOn
termination_by defs.unvisited chain
decreasing_by exact unvisited_lt _h _hc

/-- A name that is defined and not passed yet: its definition, over what it inherits. -/
theorem resolve_of_get? {chain : List String} {name : String} {d : ElementDefinition}
    (hnot : name ∉ chain) (hd : defs.get? name = some d) :
    defs.resolve chain name = match d.inherits with
      | none => .ok d
      | some base => (defs.resolve (chain ++ [name]) base).map d.layeredOn := by
  rw [resolve, dif_neg (by simpa using hnot)]
  split
  · rename_i hnone
    rw [hd] at hnone
    cases hnone
  · rename_i d' hsome
    rw [hd] at hsome
    cases hsome
    rfl

/-- A name that is not defined is an unknown base of the last name of the chain. -/
private theorem resolve_of_get?_eq_none {chain : List String} {name : String} (hnot : name ∉ chain)
    (hnone : defs.get? name = none) :
    defs.resolve chain name = .error (.unknownBase (chain.getLast?.getD "") name) := by
  rw [resolve, dif_neg (by simpa using hnot)]
  split
  · rfl
  · rename_i d hsome
    rw [hnone] at hsome
    cases hsome

/-- What can be resolved is defined. -/
theorem get?_of_resolve {chain : List String} {name : String} {r : ElementDefinition}
    (h : defs.resolve chain name = .ok r) : ∃ d, defs.get? name = some d := by
  rw [resolve] at h
  split at h
  · cases h
  · split at h
    · cases h
    · exact ⟨_, ‹_›⟩

/-- A definition that inherits from nothing is resolved as it is. -/
theorem resolve_of_inherits_none {tag : String} {d : ElementDefinition}
    (hd : defs.get? tag = some d) (hi : d.inherits = none) : defs.resolve [] tag = .ok d := by
  rw [resolve_of_get? List.not_mem_nil hd, hi]

/-- The names passed on the way matter only for failing: where the way ends, it ends the same with
fewer names passed. -/
private theorem resolve_of_subset {chain chain' : List String} {name : String}
    {r : ElementDefinition} (h : defs.resolve chain name = .ok r) (hsub : chain' ⊆ chain) :
    defs.resolve chain' name = .ok r := by
  fun_induction resolve defs chain name generalizing chain' r with
  | case1 | case2 => cases h
  | case3 chain name hnot d hd hi =>
    have hnot' : name ∉ chain' := fun hmem => hnot (by simpa using hsub hmem)
    rw [resolve_of_get? hnot' hd, hi, h]
  | case4 chain name hnot d hd base hi ih =>
    have hnot' : name ∉ chain' := fun hmem => hnot (by simpa using hsub hmem)
    -- the way on is the same, with `name` among the names passed in both cases
    have hsub' : chain' ++ [name] ⊆ chain ++ [name] :=
      List.append_subset.mpr ⟨List.Subset.trans hsub (List.subset_append_left ..),
        List.subset_append_right ..⟩
    cases hbase : defs.resolve (chain ++ [name]) base with
    | error e => rw [hbase] at h; cases h
    | ok inherited =>
      rw [hbase] at h
      simp only [resolve_of_get? hnot' hd, hi, ih hbase hsub', h]

/-- A definition that inherits from another one is put over what that one comes to. -/
theorem resolve_of_inherits_some {tag base : String} {d r : ElementDefinition}
    (hd : defs.get? tag = some d) (hi : d.inherits = some base) (h : defs.resolve [] tag = .ok r) :
    ∃ inherited, defs.resolve [] base = .ok inherited ∧ r = d.layeredOn inherited := by
  simp only [resolve_of_get? List.not_mem_nil hd, hi, List.nil_append] at h
  cases hbase : defs.resolve [tag] base with
  | error e => rw [hbase] at h; cases h
  | ok inherited =>
    rw [hbase] at h
    cases h
    exact ⟨inherited, resolve_of_subset hbase (List.nil_subset _), rfl⟩

/-! ## What is known -/

/-- What is known is what its names come to, as long as only names are passed about which nothing is
known. -/
def IsComplete (defs done : Definitions) : Prop :=
  ∀ name r, done.get? name = some r → ∀ chain, (∀ passed ∈ chain, done.get? passed = none) →
    defs.resolve chain name = .ok r

/-- Where nothing is resolved nothing is missing. -/
private theorem isComplete_empty (defs : Definitions) : defs.IsComplete .empty := by
  intro name r h
  cases h

/-- One more name becomes known. -/
private theorem IsComplete.insert (h : defs.IsComplete done) {name : String} {r : ElementDefinition}
    (hr : ∀ chain, name ∉ chain → (∀ passed ∈ chain, done.get? passed = none) →
      defs.resolve chain name = .ok r) :
    defs.IsComplete (done.insert name r) := by
  intro other r' hother chain hchain
  -- the names passed have no result, and this one does now
  have hnot : name ∉ chain := by
    intro hmem
    have hnone := hchain name hmem
    rw [NameMap.get?_insert, if_pos rfl] at hnone
    cases hnone
  have hunknown : ∀ passed ∈ chain, done.get? passed = none := by
    intro passed hpassed
    have hnone := hchain passed hpassed
    have hne : passed ≠ name := fun heq => hnot (heq ▸ hpassed)
    rwa [NameMap.get?_insert, if_neg hne] at hnone
  rw [NameMap.get?_insert] at hother
  split at hother
  · rename_i heq
    cases hother
    rw [heq]
    exact hr chain hnot hunknown
  · exact h other r' hother chain hunknown

/-- More is known, but still nothing about the names passed on the way. -/
structure Extends (defs : Definitions) (chain : List String) (done done' : Definitions) : Prop where
  complete : defs.IsComplete done'
  keeps : ∀ name r, done.get? name = some r → done'.get? name = some r
  passed : ∀ name ∈ chain, done'.get? name = none

namespace Extends

variable {chain : List String} {done' : Definitions}

/-- Nothing new is an extension. -/
private theorem refl (hdone : defs.IsComplete done)
    (hchain : ∀ name ∈ chain, done.get? name = none) :
    defs.Extends chain done done :=
  ⟨hdone, fun _ _ h => h, hchain⟩

/-- On the way back the last name passed becomes known. -/
private theorem insert {name : String} {r : ElementDefinition}
    (h : defs.Extends (chain ++ [name]) done done') (hnot : name ∉ chain)
    (hr : ∀ chain, name ∉ chain → (∀ passed ∈ chain, done'.get? passed = none) →
      defs.resolve chain name = .ok r) :
    defs.Extends chain done (done'.insert name r) where
  complete := h.complete.insert hr
  keeps := by
    intro other r' hother
    have hkept := h.keeps other r' hother
    have hne : other ≠ name := by
      intro heq
      have hnone := h.passed name (by simp)
      rw [heq, hnone] at hkept
      cases hkept
    rw [NameMap.get?_insert, if_neg hne, hkept]
  passed := by
    intro other hother
    have hne : other ≠ name := fun heq => hnot (heq ▸ hother)
    rw [NameMap.get?_insert, if_neg hne]
    exact h.passed other (List.mem_append_left _ hother)

end Extends

/-- Following the way with what is known comes to the same as following all of it. -/
theorem resolveInto_spec (chain : List String) (name : String) (hdone : defs.IsComplete done)
    (hchain : ∀ passed ∈ chain, done.get? passed = none) :
    (defs.resolveInto chain name done).map Prod.fst = defs.resolve chain name ∧
      ∀ r done', defs.resolveInto chain name done = .ok (r, done') →
        done'.get? name = some r ∧ defs.Extends chain done done' := by
  fun_induction resolveInto defs chain name done with
  | case1 chain name d hknown =>
    refine ⟨(hdone name d hknown chain hchain).symm, ?_⟩
    intro r done' h
    cases h
    exact ⟨hknown, .refl hdone hchain⟩
  | case2 chain name hunknown hmem =>
    rw [resolve, dif_pos hmem]
    exact ⟨rfl, fun r done' h => by cases h⟩
  | case3 chain name hunknown hnot hnone =>
    rw [resolve_of_get?_eq_none (by simpa using hnot) hnone]
    exact ⟨rfl, fun r done' h => by cases h⟩
  | case4 chain name hunknown hnot d hd hi =>
    have hnot : name ∉ chain := by simpa using hnot
    have hchain' : ∀ passed ∈ chain ++ [name], done.get? passed = none :=
      List.forall_mem_append.mpr ⟨hchain, by simpa using hunknown⟩
    have hresolve : ∀ chain', name ∉ chain' → defs.resolve chain' name = .ok d := by
      intro chain' hnot'
      rw [resolve_of_get? hnot' hd, hi]
    refine ⟨(hresolve chain hnot).symm, ?_⟩
    intro r done' h
    cases h
    refine ⟨by rw [NameMap.get?_insert, if_pos rfl], ?_⟩
    exact (Extends.refl hdone hchain').insert hnot fun chain' hnot' _ => hresolve chain' hnot'
  | case5 chain name hunknown hnot d hd base hi ih =>
    have hnot : name ∉ chain := by simpa using hnot
    have hchain' : ∀ passed ∈ chain ++ [name], done.get? passed = none :=
      List.forall_mem_append.mpr ⟨hchain, by simpa using hunknown⟩
    have hresolve : ∀ chain', name ∉ chain' →
        defs.resolve chain' name = (defs.resolve (chain' ++ [name]) base).map d.layeredOn := by
      intro chain' hnot'
      rw [resolve_of_get? hnot' hd, hi]
    obtain ⟨hsame, hfound⟩ := ih hchain'
    rw [hresolve chain hnot, ← hsame]
    cases hbase : defs.resolveInto (chain ++ [name]) base done with
    | error e => exact ⟨rfl, fun r done' h => by cases h⟩
    | ok found =>
      obtain ⟨hknown, hextends⟩ := hfound found.1 found.2 hbase
      refine ⟨rfl, ?_⟩
      intro r done' h
      cases h
      refine ⟨by rw [NameMap.get?_insert, if_pos rfl], hextends.insert hnot ?_⟩
      -- from here on it does not matter where the way came from
      intro chain' hnot' hunknown'
      have hway : ∀ passed ∈ chain' ++ [name], found.2.get? passed = none :=
        List.forall_mem_append.mpr ⟨hunknown', by simpa using hextends.passed name (by simp)⟩
      rw [hresolve chain' hnot', hextends.complete base found.1 hknown _ hway]
      rfl

/-! ## All names -/

/-- The names are taken one after the other, up to the first one with an error. -/
private theorem foldlM_resolveInto_cases (names : List String) (hdone : defs.IsComplete done) :
    let taken := names.foldlM (fun done name => (defs.resolveInto [] name done).map Prod.snd) done
    (∃ done', taken = .ok done' ∧ defs.Extends [] done done' ∧
      ∀ name ∈ names, ∃ r, done'.get? name = some r) ∨
    ∃ e before name after, taken = .error e ∧ names = before ++ name :: after ∧
    defs.resolve [] name = .error e ∧
      ∀ other ∈ before, ∃ r, defs.resolve [] other = .ok r := by
  -- the first name that fails ends the run, with the error it has on its own
  induction names generalizing done with
  | nil => exact .inl ⟨done, rfl, .refl hdone (by simp), by simp⟩
  | cons name names ih =>
    obtain ⟨hsame, hfound⟩ := resolveInto_spec [] name hdone (by simp)
    rw [List.foldlM_cons]
    cases hfirst : defs.resolveInto [] name done with
    | error e =>
      right
      rw [hfirst] at hsame
      exact ⟨e, [], name, names, rfl, rfl, hsame.symm, by simp⟩
    | ok found =>
      rw [hfirst] at hsame
      obtain ⟨hknown, hextends⟩ := hfound found.1 found.2 hfirst
      obtain ⟨done', htaken, hextends', hall⟩ | ⟨e, before, other, after, htaken, hnames,
          herror, hbefore⟩ :=
        ih hextends.complete
      · left
        -- what this name has added is kept by all later ones
        refine ⟨done', htaken, ⟨hextends'.complete, ?_, by simp⟩, ?_⟩
        · intro other r h
          exact hextends'.keeps other r (hextends.keeps other r h)
        · rw [List.forall_mem_cons]
          exact ⟨⟨found.1, hextends'.keeps name found.1 hknown⟩, hall⟩
      · right
        refine ⟨e, name :: before, other, after, htaken, by rw [hnames]; rfl, herror, ?_⟩
        rw [List.forall_mem_cons]
        exact ⟨⟨found.1, hsame.symm⟩, hbefore⟩

/-- What is known in the end is what the names come to, and all names taken are known. -/
private theorem of_resolveAll {names : List String} (h : defs.resolveAll names = .ok done) :
    defs.Extends [] .empty done ∧ ∀ name ∈ names, ∃ r, done.get? name = some r := by
  obtain ⟨done', htaken, hextends, hall⟩ | ⟨e, before, name, after, htaken, -⟩ :=
    foldlM_resolveInto_cases names defs.isComplete_empty
  · cases h.symm.trans htaken
    exact ⟨hextends, hall⟩
  · cases h.symm.trans htaken

/-- An error is that of the first name that has one. -/
theorem of_resolveAll_eq_error {names : List String} {e : InheritanceError}
    (h : defs.resolveAll names = .error e) :
    ∃ before name after, names = before ++ name :: after ∧ defs.resolve [] name = .error e ∧
      ∀ other ∈ before, ∃ r, defs.resolve [] other = .ok r := by
  obtain ⟨done', htaken, -⟩ | ⟨e', before, name, after, htaken, hnames, herror, hbefore⟩ :=
    foldlM_resolveInto_cases names defs.isComplete_empty
  · cases h.symm.trans htaken
  · cases h.symm.trans htaken
    exact ⟨before, name, after, hnames, herror, hbefore⟩

/-- If all definitions are among those taken, it does not matter in which order they were: in the
end there is known what each name comes to. -/
theorem get?_of_resolveAll {names : List String} (h : defs.resolveAll names = .ok done)
    (hnames : ∀ name ∈ defs.keys, name ∈ names) (name : String) :
    done.get? name = (defs.resolve [] name).toOption := by
  obtain ⟨hextends, hall⟩ := of_resolveAll h
  cases hknown : done.get? name with
  | some r =>
    rw [hextends.complete name r hknown [] (by simp)]
    rfl
  | none =>
    cases hresolve : defs.resolve [] name with
    | error e => rfl
    | ok r =>
      -- what comes to something is defined, so it has been taken
      obtain ⟨d, hd⟩ := get?_of_resolve hresolve
      obtain ⟨r', hr'⟩ := hall name (hnames name (NameMap.mem_keys_iff.mpr ⟨d, hd⟩))
      rw [hknown] at hr'
      cases hr'

/-- If each name can be resolved, all of them can. -/
theorem exists_resolveAll {names : List String}
    (h : ∀ name ∈ names, (defs.resolve [] name).toOption.isSome = true) :
    ∃ done, defs.resolveAll names = .ok done := by
  cases hdone : defs.resolveAll names with
  | ok done => exact ⟨done, rfl⟩
  | error e =>
    obtain ⟨before, name, after, rfl, herror, -⟩ := of_resolveAll_eq_error hdone
    have hsome := h name (by simp)
    rw [herror] at hsome
    cases hsome

/-- The definitions with everything they inherit, where that comes to something. -/
def resolved (defs : Definitions) : Definitions :=
  defs.mapValues fun name d => (defs.resolve [] name).toOption.getD d

/-- If every definition comes to something, this is known in the end. -/
private theorem eq_resolved_of_resolveAll (h : defs.resolveAll defs.keys = .ok done) :
    done = defs.resolved := by
  obtain ⟨hextends, hall⟩ := of_resolveAll h
  apply NameMap.ext_get?
  intro name
  rw [get?_of_resolveAll h (fun _ hname => hname), resolved, NameMap.get?_mapValues]
  cases hd : defs.get? name with
  | none =>
    cases hresolve : defs.resolve [] name with
    | error e => rfl
    | ok r =>
      obtain ⟨d, hd'⟩ := get?_of_resolve hresolve
      rw [hd] at hd'
      cases hd'
  | some d =>
    obtain ⟨r, hr⟩ := hall name (NameMap.mem_keys_iff.mpr ⟨d, hd⟩)
    rw [hextends.complete name r hr [] (by simp)]
    rfl

end Definitions

/-! ## Vocabularies -/

namespace Vocabulary

variable {defs : Definitions} {v : Vocabulary}

/-- A vocabulary comes from resolving all definitions. -/
theorem exists_of_ofDefinitions (h : ofDefinitions defs = .ok v) :
    ∃ done, defs.resolveAll defs.keys = .ok done ∧ v = ofResolved done := by
  unfold ofDefinitions at h
  cases hdone : defs.resolveAll defs.keys with
  | error e => rw [hdone] at h; cases h
  | ok done =>
    rw [hdone] at h
    cases h
    exact ⟨done, rfl, rfl⟩

/-- If every definition comes to something, there is a vocabulary. -/
theorem ofDefinitions_eq_ok
    (h : ∀ name ∈ defs.keys, (defs.resolve [] name).toOption.isSome = true) :
    ofDefinitions defs = .ok (ofResolved defs.resolved) := by
  obtain ⟨done, hdone⟩ := Definitions.exists_resolveAll h
  rw [ofDefinitions, hdone, Definitions.eq_resolved_of_resolveAll hdone]
  rfl

/-- A defined element has the model of what its definition comes to. -/
theorem get?_of_ofDefinitions (h : ofDefinitions defs = .ok v) {tag : String}
    {d : ElementDefinition} (hd : defs.get? tag = some d) :
    ∃ r, defs.resolve [] tag = .ok r ∧ v.models.get? tag = some (r.toModel tag) := by
  obtain ⟨done, hdone, rfl⟩ := exists_of_ofDefinitions h
  obtain ⟨hextends, hall⟩ := Definitions.of_resolveAll hdone
  obtain ⟨r, hr⟩ := hall tag (NameMap.mem_keys_iff.mpr ⟨d, hd⟩)
  refine ⟨r, hextends.complete tag r hr [] (by simp), ?_⟩
  rw [ofResolved, NameMap.get?_mapValues, hr]
  rfl

/-- The tags of the models are those of the definitions. -/
theorem mem_tags_iff (h : ofDefinitions defs = .ok v) {tag : String} :
    tag ∈ v.tags ↔ tag ∈ defs.keys := by
  obtain ⟨done, hdone, rfl⟩ := exists_of_ofDefinitions h
  obtain ⟨hextends, hall⟩ := Definitions.of_resolveAll hdone
  rw [tags, ofResolved, NameMap.keys_mapValues, NameMap.mem_keys_iff]
  constructor
  · rintro ⟨r, hr⟩
    exact NameMap.mem_keys_iff.mpr
      (Definitions.get?_of_resolve (hextends.complete tag r hr [] (by simp)))
  · exact hall tag

end Vocabulary

end HtmlLint
