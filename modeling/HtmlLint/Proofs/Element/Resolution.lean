import HtmlLint.Proofs.Element.Customization
import Mathlib.Data.List.Chain
import Mathlib.Data.List.Nodup

/-!
# What definitions come to

From a definition the names that are inherited lead to further definitions.  If this way ends at one
that inherits nothing, the definitions on it are the lineage of the name (`Definitions.Lineage`),
and each field of the element is what the first of them says that says anything about it
(`Lineage.agreesOn`).  Otherwise the way comes back to a name that it has passed, or leads to a name
that is not defined.

`ofDefinitions_follows_lineages` says that a vocabulary is made exactly if every name has a lineage,
what it holds then, and which error there is otherwise.
-/

namespace HtmlLint

namespace Definitions

variable {defs : Definitions}

/-- The definitions on the way from a name to the one that inherits nothing. -/
inductive Lineage (defs : Definitions) : String → List ElementDefinition → Prop where
  | root {name : String} {d : ElementDefinition} (hd : defs.get? name = some d)
      (hi : d.inherits = none) : Lineage defs name [d]
  | step {name base : String} {d : ElementDefinition} {ds : List ElementDefinition}
      (hd : defs.get? name = some d)
      (hi : d.inherits = some base) (hbase : Lineage defs base ds) : Lineage defs name (d :: ds)

/-- A definition of the one name inherits from the other. -/
def Inherits (defs : Definitions) (name base : String) : Prop :=
  ∃ d, defs.get? name = some d ∧ d.inherits = some base

/-- The way from a name comes back to a name that it has passed. -/
def Revisits (defs : Definitions) (name : String) : Prop :=
  ∃ path : List String, path.head? = some name ∧ path.IsChain defs.Inherits ∧ ¬ path.Nodup

/-- One definition over the other, the first one uppermost. -/
def stack : List ElementDefinition → ElementDefinition
  | [] => {}
  | d :: ds => d.layeredOn (stack ds)

/-! ## Ways that end -/

/-- A name has one lineage at most. -/
private theorem Lineage.unique {name : String} {ds ds' : List ElementDefinition}
    (h : defs.Lineage name ds) (h' : defs.Lineage name ds') : ds = ds' := by
  -- a definition inherits or it does not, so both lineages take the same step
  induction h generalizing ds' with
  | root hd hi =>
    cases h' with
    | root hd' _ =>
      rw [hd] at hd'
      cases hd'
      rfl
    | step hd' hi' _ =>
      rw [hd] at hd'
      cases hd'
      rw [hi] at hi'
      cases hi'
  | step hd hi _ ih =>
    cases h' with
    | root hd' hi' =>
      rw [hd] at hd'
      cases hd'
      rw [hi] at hi'
      cases hi'
    | step hd' hi' hbase' =>
      rw [hd] at hd'
      cases hd'
      rw [hi] at hi'
      cases hi'
      rw [ih hbase']

/-- One layer is the whole stack. -/
private theorem stack_singleton (d : ElementDefinition) : stack [d] = d := by
  simp [stack, ElementDefinition.layeredOn]

/-- Where following the way ends, there is a lineage. -/
private theorem lineage_of_resolve {chain : List String} {name : String} {r : ElementDefinition}
    (h : defs.resolve chain name = .ok r) : ∃ ds, defs.Lineage name ds ∧ r = stack ds := by
  fun_induction resolve defs chain name generalizing r with
  | case1 | case2 => cases h
  | case3 chain name hnot d hd hi =>
    cases h
    exact ⟨[d], .root hd hi, (stack_singleton d).symm⟩
  | case4 chain name hnot d hd base hi ih =>
    cases hbase : defs.resolve (chain ++ [name]) base with
    | error e => rw [hbase] at h; cases h
    | ok inherited =>
      rw [hbase] at h
      cases h
      obtain ⟨ds, hds, rfl⟩ := ih hbase
      exact ⟨d :: ds, .step hd hi hds, rfl⟩

/-- Following the way ends where there is a lineage, if it has not passed names on the way: their
lineages, if they have any, are longer. -/
private theorem Lineage.resolve_eq {chain : List String} {name : String}
    {ds : List ElementDefinition} (h : defs.Lineage name ds)
    (hchain : ∀ passed ∈ chain, ∀ ds', defs.Lineage passed ds' → ds.length < ds'.length) :
    defs.resolve chain name = .ok (stack ds) := by
  -- names passed on the way have longer lineages, so no name comes twice
  have hnot : name ∉ chain := fun hmem => Nat.lt_irrefl _ (hchain name hmem ds h)
  induction h generalizing chain with
  | root hd hi => rw [resolve_of_get? hnot hd, hi, stack_singleton]
  | @step name base d ds hd hi hbase ih =>
    have hchain' : ∀ passed ∈ chain ++ [name], ∀ ds', defs.Lineage passed ds' →
        ds.length < ds'.length := by
      intro passed hpassed ds' hds'
      cases List.mem_append.mp hpassed with
      | inl hmem =>
        have hlt := hchain passed hmem ds' hds'
        rw [List.length_cons] at hlt
        omega
      | inr hmem =>
        rw [List.mem_singleton.mp hmem] at hds'
        rw [hds'.unique (.step hd hi hbase), List.length_cons]
        omega
    have hnot' : base ∉ chain ++ [name] := fun hmem => Nat.lt_irrefl _ (hchain' base hmem ds hbase)
    simp only [resolve_of_get? hnot hd, hi, ih hchain' hnot']
    rfl

/-- A name with a lineage can be resolved. -/
private theorem Lineage.isSome_resolve {name : String} {ds : List ElementDefinition}
    (h : defs.Lineage name ds) :
    (defs.resolve [] name).toOption.isSome = true := by
  rw [h.resolve_eq (by simp)]
  rfl

/-- Of each field the model has what the first definition says that says anything about it. -/
private theorem toModel_stack_agreesOn (ds : List ElementDefinition) (tag : String)
    (f : ElementField) :
    ((stack ds).toModel tag).AgreesOn (((ds.find? (·.sets f)).getD {}).toModel tag) f := by
  induction ds with
  | nil => cases f <;> rfl
  | cons d ds ih =>
    rw [List.find?_cons]
    cases hsets : d.sets f with
    | true => exact ElementDefinition.toModel_layeredOn_of_sets hsets (stack ds) tag tag
    | false =>
      exact (ElementDefinition.toModel_layeredOn_of_not_sets hsets (stack ds) tag tag).trans ih

/-! ## Ways that do not end -/

/-- A name inherits from one base at most. -/
private theorem Inherits.unique {name base base' : String} (h : defs.Inherits name base)
    (h' : defs.Inherits name base') :
    base = base' := by
  obtain ⟨d, hd, hi⟩ := h
  obtain ⟨d', hd', hi'⟩ := h'
  rw [hd] at hd'
  cases hd'
  rw [hi] at hi'
  cases hi'
  rfl

/-- A way that leads to a name without definition goes on along the names that are inherited as far
as possible. -/
private theorem isPrefix_of_isChain {path full : List String} (hhead : path.head? = full.head?)
    (hpath : path.IsChain defs.Inherits) (hfull : full.IsChain defs.Inherits)
    (hlast : ∀ last, full.getLast? = some last → defs.get? last = none) : path <+: full := by
  induction full generalizing path with
  | nil =>
    obtain rfl : path = [] := List.head?_eq_none_iff.mp hhead
    exact List.prefix_rfl
  | cons name full ih =>
    cases path with
    | nil => exact List.nil_prefix
    | cons first path =>
      obtain rfl : first = name := by simpa using hhead
      cases path with
      | nil => exact ⟨full, rfl⟩
      | cons base path =>
        obtain ⟨hbase, hpath⟩ := List.isChain_cons_cons.mp hpath
        cases full with
        | nil =>
          -- the full way ends at an unknown name, which inherits from nothing
          obtain ⟨d, hd, -⟩ := hbase
          rw [hlast first rfl] at hd
          cases hd
        | cons base' full =>
          obtain ⟨hbase', hfull⟩ := List.isChain_cons_cons.mp hfull
          obtain rfl := hbase.unique hbase'
          rw [List.cons_prefix_cons]
          exact ⟨rfl, ih rfl hpath hfull fun last hlast' => hlast last (by simpa using hlast')⟩

/-- What is wrong where following the way fails: the names passed lead further, to a name that is
among them or to one that is not defined. -/
private theorem of_resolve_eq_error {chain : List String} {name : String} {e : InheritanceError}
    (h : defs.resolve chain name = .error e) (hway : (chain ++ [name]).IsChain defs.Inherits)
    (hnodup : chain.Nodup) :
    ∃ path last, chain ++ [name] <+: path ++ [last] ∧
    (path ++ [last]).IsChain defs.Inherits ∧ path.Nodup ∧
      (last ∈ path ∧ e = .cycle (path ++ [last]) ∨
        last ∉ path ∧ defs.get? last = none ∧ e = .unknownBase (path.getLast?.getD "") last) := by
  fun_induction resolve defs chain name generalizing e with
  | case1 chain name hmem =>
    cases h
    exact ⟨chain, name, List.prefix_rfl, hway, hnodup, .inl ⟨by simpa using hmem, rfl⟩⟩
  | case2 chain name hnot hnone =>
    cases h
    exact ⟨chain, name, List.prefix_rfl, hway, hnodup, .inr ⟨by simpa using hnot, hnone, rfl⟩⟩
  | case3 => cases h
  | case4 chain name hnot d hd base hi ih =>
    cases hbase : defs.resolve (chain ++ [name]) base with
    | ok inherited => rw [hbase] at h; cases h
    | error e' =>
      rw [hbase] at h
      cases h
      have hnot : name ∉ chain := by simpa using hnot
      -- the name is put at the end of the way, and the base is where it leads
      have hway' : (chain ++ [name] ++ [base]).IsChain defs.Inherits := by
        rw [List.append_assoc]
        exact List.isChain_append_cons_cons.mpr ⟨hway, ⟨d, hd, hi⟩, .singleton base⟩
      have hnodup' : (chain ++ [name]).Nodup := by
        rw [← List.concat_eq_append, List.nodup_concat]
        exact ⟨hnot, hnodup⟩
      obtain ⟨path, last, hprefix, hrest⟩ := ih hbase hway' hnodup'
      exact ⟨path, last, (List.prefix_append _ _).trans hprefix, hrest⟩

/-- What is wrong with a definition that does not come to anything. -/
def Explains (defs : Definitions) (key : String) (e : InheritanceError) : Prop :=
  (defs.Revisits key ∧ ∃ path again, e = .cycle (path ++ [again]) ∧
    (path ++ [again]).head? = some key ∧
    (path ++ [again]).IsChain defs.Inherits ∧ path.Nodup ∧ again ∈ path) ∨
  (¬ defs.Revisits key ∧ ∃ path element base, e = .unknownBase element base ∧
    (path ++ [element, base]).head? = some key ∧ (path ++ [element, base]).IsChain defs.Inherits ∧
    defs.get? base = none)

/-- The error of a name that cannot be resolved explains why. -/
private theorem explains_of_resolve {key : String} {d : ElementDefinition} {e : InheritanceError}
    (hd : defs.get? key = some d) (h : defs.resolve [] key = .error e) : defs.Explains key e := by
  obtain ⟨path, last, ⟨rest, hrest⟩, hchain, hnodup, herror⟩ :=
    of_resolve_eq_error h (.singleton key) .nil
  have hhead : (path ++ [last]).head? = some key := by
    rw [← hrest]
    rfl
  obtain ⟨hmem, rfl⟩ | ⟨hnot, hnone, rfl⟩ := herror
  · left
    -- the last name stands earlier in the way already
    have hagain : ¬ (path ++ [last]).Nodup := by
      rw [← List.concat_eq_append, List.nodup_concat]
      exact fun hall => hall.1 hmem
    exact ⟨⟨path ++ [last], hhead, hchain, hagain⟩, path, last, rfl, hhead, hchain, hnodup, hmem⟩
  · right
    constructor
    · -- every way from the name is a part of this one
      rintro ⟨path', hhead', hchain', hagain⟩
      have hprefix :=
        isPrefix_of_isChain (hhead'.trans hhead.symm) hchain' hchain (by simpa using hnone)
      rw [← List.concat_eq_append] at hprefix
      exact hagain (((List.nodup_concat path last).mpr ⟨hnot, hnodup⟩).sublist hprefix.sublist)
    · obtain rfl | ⟨path, element, rfl⟩ := List.eq_nil_or_concat path
      · -- the name itself is defined
        obtain rfl : last = key := by simpa using hhead
        rw [hnone] at hd
        cases hd
      · rw [List.concat_eq_append, List.append_assoc] at hhead hchain
        exact ⟨path, element, last, by simp, hhead, hchain, hnone⟩

/-! ## All names -/

/-- What is known in the end is the same in whatever order all names are taken. -/
private theorem resolveAll_unique {names names' : List String} {done done' : Definitions}
    (h : defs.resolveAll names = .ok done) (h' : defs.resolveAll names' = .ok done')
    (hnames : ∀ name ∈ defs.keys, name ∈ names) (hnames' : ∀ name ∈ defs.keys, name ∈ names') :
    done = done' := by
  apply NameMap.ext_get?
  intro name
  rw [get?_of_resolveAll h hnames, get?_of_resolveAll h' hnames']

end Definitions

/-! ## Vocabularies -/

namespace Vocabulary

variable {defs : Definitions} {v : Vocabulary}

/-- A vocabulary has what the definitions of a lineage come to. -/
private theorem exists_lineage (h : ofDefinitions defs = .ok v) {key : String}
    (hkey : key ∈ defs.keys) :
    ∃ ds, defs.Lineage key ds ∧ v.models.get? key = some ((Definitions.stack ds).toModel key) := by
  obtain ⟨d, hd⟩ := NameMap.mem_keys_iff.mp hkey
  obtain ⟨r, hr, hmodel⟩ := get?_of_ofDefinitions h hd
  obtain ⟨ds, hds, rfl⟩ := Definitions.lineage_of_resolve hr
  exact ⟨ds, hds, hmodel⟩

/-- The tags of a vocabulary are the names that are defined. -/
private theorem tags_of_ofDefinitions (h : ofDefinitions defs = .ok v) : v.tags = defs.keys :=
  NameMap.keys_eq fun _ => mem_tags_iff h

/-- An error is that of the first name without lineage. -/
private theorem of_ofDefinitions_eq_error {e : InheritanceError}
    (h : ofDefinitions defs = .error e) :
    ∃ key ∈ defs.keys, (∀ ds, ¬ defs.Lineage key ds) ∧
      (∀ other ∈ defs.keys, other < key → ∃ ds, defs.Lineage other ds) ∧ defs.Explains key e := by
  have herror : defs.resolveAll defs.keys = .error e := by
    unfold ofDefinitions at h
    cases hdone : defs.resolveAll defs.keys with
    | ok done => rw [hdone] at h; cases h
    | error e' =>
      rw [hdone] at h
      cases h
      rfl
  obtain ⟨before, key, after, hkeys, hkey, hbefore⟩ := Definitions.of_resolveAll_eq_error herror
  have hmem : key ∈ defs.keys := by
    rw [hkeys]
    simp
  obtain ⟨d, hd⟩ := NameMap.mem_keys_iff.mp hmem
  refine ⟨key, hmem, ?_, ?_, Definitions.explains_of_resolve hd hkey⟩
  · intro ds hds
    rw [hds.resolve_eq (by simp)] at hkey
    cases hkey
  · intro other hother hlt
    -- what is smaller comes before
    have hsorted : defs.keys.Pairwise (· < ·) := defs.ascending
    rw [hkeys, List.pairwise_append, List.pairwise_cons] at hsorted
    rw [hkeys, List.mem_append, List.mem_cons] at hother
    obtain hother | rfl | hother := hother
    · obtain ⟨r, hr⟩ := hbefore other hother
      obtain ⟨ds, hds, -⟩ := Definitions.lineage_of_resolve hr
      exact ⟨ds, hds⟩
    · exact absurd hlt (String.lt_irrefl _)
    · exact absurd hlt (String.lt_asymm (hsorted.2.1.1 other hother))

end Vocabulary

/-- Definitions give a vocabulary exactly if every name has a lineage.  Then there is one model for
each name, and each field of it is what the first definition of the lineage says that says anything
about it, or the usual value; whatever the order in which the names are taken, the vocabulary is the
same.  Otherwise the error is that of the first name without lineage: that its way comes back to a
name it has passed, or else leads to one that is not defined. -/
theorem ofDefinitions_follows_lineages (defs : Definitions) :
    ((∃ v, Vocabulary.ofDefinitions defs = .ok v) ↔ ∀ key ∈ defs.keys, ∃ ds, defs.Lineage key ds) ∧
    (∀ v, Vocabulary.ofDefinitions defs = .ok v →
      v.tags = defs.keys ∧
      (∀ key ∈ defs.keys, ∃ ds m, defs.Lineage key ds ∧ v.models.get? key = some m ∧ m.tag = key ∧
        ∀ f, m.AgreesOn (((ds.find? (·.sets f)).getD {}).toModel key) f) ∧
      ∀ order : List String, (∀ key, key ∈ order ↔ key ∈ defs.keys) →
        (defs.resolveAll order).map Vocabulary.ofResolved = .ok v) ∧
    ∀ e, Vocabulary.ofDefinitions defs = .error e →
    ∃ key ∈ defs.keys, (∀ ds, ¬ defs.Lineage key ds) ∧
      (∀ other ∈ defs.keys, other < key → ∃ ds, defs.Lineage other ds) ∧ defs.Explains key e := by
  refine ⟨⟨?_, ?_⟩, ?_, fun e he => Vocabulary.of_ofDefinitions_eq_error he⟩
  · rintro ⟨v, hv⟩ key hkey
    obtain ⟨ds, hds, -⟩ := Vocabulary.exists_lineage hv hkey
    exact ⟨ds, hds⟩
  · intro hall
    have hresolve : ∀ key ∈ defs.keys, (defs.resolve [] key).toOption.isSome = true := by
      intro key hkey
      obtain ⟨ds, hds⟩ := hall key hkey
      exact hds.isSome_resolve
    exact ⟨_, Vocabulary.ofDefinitions_eq_ok hresolve⟩
  · intro v hv
    refine ⟨Vocabulary.tags_of_ofDefinitions hv, ?_, ?_⟩
    · intro key hkey
      obtain ⟨ds, hds, hmodel⟩ := Vocabulary.exists_lineage hv hkey
      exact ⟨ds, _, hds, hmodel, rfl, fun f => Definitions.toModel_stack_agreesOn ds key f⟩
    · intro order horder
      have hall : ∀ name ∈ order, (defs.resolve [] name).toOption.isSome = true := by
        intro name hname
        obtain ⟨ds, hds, -⟩ := Vocabulary.exists_lineage hv ((horder name).mp hname)
        exact hds.isSome_resolve
      obtain ⟨done, hdone⟩ := Definitions.exists_resolveAll hall
      obtain ⟨done', hdone', rfl⟩ := Vocabulary.exists_of_ofDefinitions hv
      have hsame : done = done' :=
        Definitions.resolveAll_unique hdone hdone' (fun name => (horder name).mpr)
          fun _ hname => hname
      rw [hdone, hsame]
      rfl

/-- A name is resolved through one that is known already, and a name leads into a cycle that it is
not part of. -/
theorem ofDefinitions_follows_lineages_cycle :
    let fine : Definitions := .ofList [("a", { inherits := some "c", void := some true }),
      ("b", { inherits := some "a" }), ("c", { void := some false, foreign := some true })]
    let broken : Definitions := .ofList [("a", {}), ("b", { inherits := some "c" }),
      ("c", { inherits := some "d" }), ("d", { inherits := some "c" }),
      ("e", { inherits := some "f" })]
    (∃ v, Vocabulary.ofDefinitions fine = .ok v ∧ v.tags = ["a", "b", "c"] ∧
      ∀ order : List String, (∀ key, key ∈ order ↔ key ∈ fine.keys) →
        (fine.resolveAll order).map Vocabulary.ofResolved = .ok v) ∧
    Vocabulary.ofDefinitions broken = .error (.cycle ["b", "c", "d", "c"]) ∧
    ∃ key ∈ broken.keys, (∀ ds, ¬ broken.Lineage key ds) ∧
    broken.Explains key (.cycle ["b", "c", "d", "c"]) := by
  intro fine broken
  have hmade : (Vocabulary.ofDefinitions fine).toOption.isSome = true := by decide +kernel
  have herror : Vocabulary.ofDefinitions broken = .error (.cycle ["b", "c", "d", "c"]) :=
    by decide +kernel
  refine ⟨?_, herror, ?_⟩
  · cases hv : Vocabulary.ofDefinitions fine with
    | error e => rw [hv] at hmade; cases hmade
    | ok v =>
      obtain ⟨htags, -, horder⟩ := (ofDefinitions_follows_lineages fine).2.1 v hv
      exact ⟨v, rfl, htags, horder⟩
  · obtain ⟨key, hkey, hnone, -, hexplains⟩ := (ofDefinitions_follows_lineages broken).2.2 _ herror
    exact ⟨key, hkey, hnone, hexplains⟩

end HtmlLint
