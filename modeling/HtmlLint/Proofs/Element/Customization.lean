import HtmlLint.Proofs.Element.Html

/-!
# What a custom definition leaves of a built-in one

A definition that is put over one of the same tag takes what it leaves out from the definition below
it, but not what that one inherits.  So of each field that it leaves out the element keeps what the
built-in definition says itself, and loses what the built-in definition only inherits:
`customized_field_iff`.
-/

namespace HtmlLint

/-- What a definition can say about an element, apart from what it inherits. -/
inductive ElementField where
  | categories
  | void
  | foreign
  | optionalEnd
  | implicitClosed
  | permittedContent
  | permittedParent
  | permittedOrder
  | permittedOccurrences
  | requiredContent
  | requiredAncestors
  | requiredAttributes
  | deprecated
  deriving DecidableEq

/-- The definition says something about this field. -/
def ElementDefinition.sets (d : ElementDefinition) : ElementField → Bool
  | .categories => d.categories.isSome
  | .void => d.void.isSome
  | .foreign => d.foreign.isSome
  | .optionalEnd => d.optionalEnd.isSome
  | .implicitClosed => d.implicitClosed.isSome
  | .permittedContent => d.permittedContent.isSome
  | .permittedParent => d.permittedParent.isSome
  | .permittedOrder => d.permittedOrder.isSome
  | .permittedOccurrences => d.permittedOccurrences.isSome
  | .requiredContent => d.requiredContent.isSome
  | .requiredAncestors => d.requiredAncestors.isSome
  | .requiredAttributes => d.requiredAttributes.isSome
  | .deprecated => d.deprecated.isSome

/-- The two models have the same value in this field. -/
def ElementModel.AgreesOn (m m' : ElementModel) : ElementField → Prop
  | .categories => m.categories = m'.categories
  | .void => m.void = m'.void
  | .foreign => m.foreign = m'.foreign
  | .optionalEnd => m.optionalEnd = m'.optionalEnd
  | .implicitClosed => m.implicitClosed = m'.implicitClosed
  | .permittedContent => m.permittedContent = m'.permittedContent
  | .permittedParent => m.permittedParent = m'.permittedParent
  | .permittedOrder => m.permittedOrder = m'.permittedOrder
  | .permittedOccurrences => m.permittedOccurrences = m'.permittedOccurrences
  | .requiredContent => m.requiredContent = m'.requiredContent
  | .requiredAncestors => m.requiredAncestors = m'.requiredAncestors
  | .requiredAttributes => m.requiredAttributes = m'.requiredAttributes
  | .deprecated => m.deprecated = m'.deprecated

namespace ElementModel.AgreesOn

variable {m m' m'' : ElementModel} {f : ElementField}

/-- Agreement on a field does not depend on the order. -/
private theorem symm (h : m.AgreesOn m' f) : m'.AgreesOn m f := by
  cases f <;> exact Eq.symm h

/-- Agreement on a field carries over. -/
theorem trans (h : m.AgreesOn m' f) (h' : m'.AgreesOn m'' f) : m.AgreesOn m'' f := by
  cases f <;> exact Eq.trans h h'

end ElementModel.AgreesOn

namespace ElementDefinition

variable {d : ElementDefinition} {f : ElementField}

/-- The model of an element about which nothing is said. -/
def usual (tag : String) : ElementModel :=
  ({} : ElementDefinition).toModel tag

/-! ## One definition over another -/

/-- What a definition leaves out is as below it. -/
theorem toModel_layeredOn_of_not_sets (h : d.sets f = false) (base : ElementDefinition)
    (tag tag' : String) :
    ((d.layeredOn base).toModel tag).AgreesOn (base.toModel tag') f := by
  cases f <;> simp_all [sets, layeredOn, toModel, ElementModel.AgreesOn]

/-- What a definition says is as it says. -/
theorem toModel_layeredOn_of_sets (h : d.sets f = true) (base : ElementDefinition)
    (tag tag' : String) :
    ((d.layeredOn base).toModel tag).AgreesOn (d.toModel tag') f := by
  cases f <;> simp only [sets, Option.isSome_iff_exists] at h <;> obtain ⟨value, h⟩ := h <;>
    simp [h, layeredOn, toModel, ElementModel.AgreesOn]

/-- A field that is left out has its usual value. -/
private theorem toModel_agreesOn_usual (h : d.sets f = false) (tag tag' : String) :
    (d.toModel tag).AgreesOn (usual tag') f := by
  cases f <;> simp_all [sets, usual, toModel, ElementModel.AgreesOn]

end ElementDefinition

/-! ## Putting definitions over others -/

namespace Definitions

variable {defs : Definitions}

/-- A definition is put under its tag in small letters, and no other tag is touched. -/
private theorem get?_customize_of_ne {tag name : String} (h : Text.foldCase name ≠ tag)
    (d : ElementDefinition) :
    (defs.customize name d).get? tag = defs.get? tag := by
  simp only [customize]
  split <;> rw [NameMap.get?_insert, if_neg (Ne.symm h)]

/-- A definition that inherits from nothing is layered on the one that is known. -/
private theorem get?_customize {tag name : String} (h : Text.foldCase name = tag)
    {d known : ElementDefinition} (hknown : defs.get? tag = some known) (hi : d.inherits = none) :
    (defs.customize name d).get? tag = some (d.layeredOn known) := by
  simp only [customize, h, hknown, hi, NameMap.get?_insert, if_true]

/-- Definitions of other tags do not touch a tag. -/
private theorem get?_foldl_customize {tag : String} {entries : List (String × ElementDefinition)}
    (h : ∀ e ∈ entries, Text.foldCase e.1 ≠ tag) :
    (entries.foldl (fun defs e => defs.customize e.1 e.2) defs).get? tag = defs.get? tag := by
  induction entries generalizing defs with
  | nil => rfl
  | cons e entries ih =>
    rw [List.foldl_cons, ih fun e' he' => h e' (List.mem_cons_of_mem _ he'),
      get?_customize_of_ne (h e (List.mem_cons_self ..))]

/-- The definitions of all tags but this one, up to ASCII case. -/
def without (custom : Definitions) (tag : String) : Definitions :=
  ⟨custom.entries.filter fun e => !Text.sameName e.1 tag,
    custom.ascending.sublist (List.filter_sublist.map Prod.fst)⟩

end Definitions

/-! ## Vocabularies -/

namespace Vocabulary

/-- A model that is stored under a tag is found. -/
private theorem find?_of_get? {v : Vocabulary} {tag : String} {m : ElementModel}
    (h : v.models.get? tag = some m) :
    v.find? tag = some m := by
  rw [find?, h, Option.some_or]

end Vocabulary

/-- The built-in tags are written in small letters. -/
private theorem foldCase_of_htmlDefinitions {tag : String} {d : ElementDefinition}
    (h : htmlDefinitions.get? tag = some d) : Text.foldCase tag = tag := by
  have hall : ∀ e ∈ htmlDefinitions.entries, Text.foldCase e.1 = e.1 := by decide +kernel
  obtain ⟨e, he, rfl⟩ := Definitions.mem_of_get? h
  exact hall e he

/-- A custom definition without `inherits` is put over the built-in one of its tag.  In every field
that it leaves out, the element has what the built-in definition itself says.  This is what it would
be without the custom definition exactly if the built-in definition inherits from nothing, or says
something about the field itself, or inherits from an element that has the usual value there. -/
theorem customized_field_iff {custom : Definitions} {tag name : String}
    {builtin own : ElementDefinition} {v v₀ : Vocabulary}
    (hbuiltin : htmlDefinitions.get? tag = some builtin)
    (hown : custom.entries.filter (fun e => Text.sameName e.1 tag) = [(name, own)])
    (hinherits : own.inherits = none) (hv : Vocabulary.htmlWith custom = .ok v)
    (hv₀ : Vocabulary.htmlWith (custom.without tag) = .ok v₀) :
    ∃ m m₀, v.find? tag = some m ∧ v₀.find? tag = some m₀ ∧
      ∀ f, own.sets f = false →
        m.AgreesOn (builtin.toModel tag) f ∧
        (m.AgreesOn m₀ f ↔ ∀ base, builtin.inherits = some base → builtin.sets f = true ∨
          ∃ inherited, v₀.find? base = some inherited ∧
            inherited.AgreesOn (ElementDefinition.usual base) f) := by
  have htag := foldCase_of_htmlDefinitions hbuiltin
  have hother : ∀ e : String × ElementDefinition, Text.sameName e.1 tag = false →
      Text.foldCase e.1 ≠ tag := by
    intro e he
    simpa [Text.sameName, htag] using he
  -- with the custom definition: it stands over the built-in one, and inherits nothing
  have hdef : (custom.entries.foldl (fun defs e => defs.customize e.1 e.2) htmlDefinitions).get?
      tag = some (own.layeredOn builtin) := by
    obtain ⟨before, after, hentries, hbefore, hname, hafter⟩ := List.filter_eq_cons_iff.mp hown
    have hname : Text.foldCase name = tag := by simpa [Text.sameName, htag] using hname
    rw [hentries, List.foldl_append, List.foldl_cons, Definitions.get?_foldl_customize]
    · apply Definitions.get?_customize hname _ hinherits
      rw [Definitions.get?_foldl_customize, hbuiltin]
      exact fun e he => hother e (by simpa using hbefore e he)
    · exact fun e he => hother e (by simpa using List.filter_eq_nil_iff.mp hafter e he)
  -- without it: the built-in one is untouched
  have hdef₀ : ((custom.without tag).entries.foldl (fun defs e => defs.customize e.1 e.2)
      htmlDefinitions).get? tag = some builtin := by
    rw [Definitions.get?_foldl_customize, hbuiltin]
    exact fun e he => hother e (by simpa using (List.mem_filter.mp he).2)
  obtain ⟨r, hr, hm⟩ := Vocabulary.get?_of_ofDefinitions hv hdef
  obtain ⟨r₀, hr₀, hm₀⟩ := Vocabulary.get?_of_ofDefinitions hv₀ hdef₀
  rw [Definitions.resolve_of_inherits_none hdef hinherits] at hr
  cases hr
  refine ⟨_, _, Vocabulary.find?_of_get? hm, Vocabulary.find?_of_get? hm₀, fun f hf => ?_⟩
  have hdirect : ((own.layeredOn builtin).toModel tag).AgreesOn (builtin.toModel tag) f :=
    ElementDefinition.toModel_layeredOn_of_not_sets hf builtin tag tag
  refine ⟨hdirect, ?_⟩
  cases hi : builtin.inherits with
  | none =>
    rw [Definitions.resolve_of_inherits_none hdef₀ hi] at hr₀
    cases hr₀
    simpa using hdirect
  | some base =>
    obtain ⟨inherited, hresolved, rfl⟩ := Definitions.resolve_of_inherits_some hdef₀ hi hr₀
    obtain ⟨d', hd'⟩ := Definitions.get?_of_resolve hresolved
    obtain ⟨r', hr', hbase⟩ := Vocabulary.get?_of_ofDefinitions hv₀ hd'
    rw [hresolved] at hr'
    cases hr'
    simp only [Option.some.injEq, forall_eq', Vocabulary.find?_of_get? hbase, exists_eq_left']
    cases hsets : builtin.sets f with
    | true =>
      have hkept := ElementDefinition.toModel_layeredOn_of_sets hsets inherited tag tag
      simpa using hdirect.trans hkept.symm
    | false =>
      -- neither definition says anything: the one has the usual value, the other that of the base
      have husual := ElementDefinition.toModel_agreesOn_usual hsets tag base
      have hpassed := ElementDefinition.toModel_layeredOn_of_not_sets hsets inherited tag base
      simp only [Bool.false_eq_true, false_or]
      constructor
      · intro hagrees
        exact hpassed.symm.trans (hagrees.symm.trans (hdirect.trans husual))
      · intro hagrees
        exact hdirect.trans (husual.trans (hagrees.symm.trans hpassed.symm))

/-- A custom definition that says only that `em` is deprecated. -/
def deprecatedEm : Definitions :=
  .ofList [("em", { deprecated := some (.flag true) })]

/-- With the custom definition and without it there is a vocabulary, and `em` has these categories
there. -/
private theorem htmlWith_deprecatedEm :
    ∃ v v₀, Vocabulary.htmlWith deprecatedEm = .ok v ∧
      Vocabulary.htmlWith (deprecatedEm.without "em") = .ok v₀ ∧
      (v.find? "em").map ElementModel.categories = some [] ∧
      (v₀.find? "em").map ElementModel.categories = some ["flow", "phrasing"] := by
  have hwith : ((Vocabulary.htmlWith deprecatedEm).toOption.bind (·.find? "em")).map
      ElementModel.categories = some [] := by
    let defs := htmlDefinitions.customize "em" { deprecated := some (.flag true) }
    have hall : ∀ name ∈ defs.keys, (defs.resolve [] name).toOption.isSome = true :=
      by decide +kernel
    rw [show Vocabulary.htmlWith deprecatedEm = _ from Vocabulary.ofDefinitions_eq_ok hall]
    decide +kernel
  have hwithout :
      ((Vocabulary.htmlWith (deprecatedEm.without "em")).toOption.bind (·.find? "em")).map
      ElementModel.categories = some ["flow", "phrasing"] := by
    have hempty : deprecatedEm.without "em" = .empty := by decide +kernel
    rw [hempty, Vocabulary.htmlWith_empty]
    decide +kernel
  cases hv : Vocabulary.htmlWith deprecatedEm with
  | error e => rw [hv] at hwith; cases hwith
  | ok v =>
    cases hv₀ : Vocabulary.htmlWith (deprecatedEm.without "em") with
    | error e => rw [hv₀] at hwithout; cases hwithout
    | ok v₀ =>
      rw [hv] at hwith
      rw [hv₀] at hwithout
      exact ⟨v, v₀, rfl, rfl, hwith, hwithout⟩

/-- The built-in definition of `em` only says that it inherits from `span`. -/
theorem customized_field_iff_em :
    ∃ v v₀ m m₀, Vocabulary.htmlWith deprecatedEm = .ok v ∧
      Vocabulary.htmlWith (deprecatedEm.without "em") = .ok v₀ ∧
      v.find? "em" = some m ∧ v₀.find? "em" = some m₀ ∧
      ∀ f, ({ deprecated := some (.flag true) } : ElementDefinition).sets f = false →
        m.AgreesOn (({ inherits := some "span" } : ElementDefinition).toModel "em") f ∧
        (m.AgreesOn m₀ f ↔ ∀ base, some "span" = some base →
          ({ inherits := some "span" } : ElementDefinition).sets f = true ∨
            ∃ inherited, v₀.find? base = some inherited ∧
              inherited.AgreesOn (ElementDefinition.usual base) f) := by
  obtain ⟨v, v₀, hv, hv₀, -⟩ := htmlWith_deprecatedEm
  have hbuiltin : htmlDefinitions.get? "em" = some { inherits := some "span" } := by decide +kernel
  have hown : deprecatedEm.entries.filter (fun e => Text.sameName e.1 "em") =
      [("em", { deprecated := some (.flag true) })] := by decide +kernel
  obtain ⟨m, m₀, hm, hm₀, hfields⟩ := customized_field_iff hbuiltin hown rfl hv hv₀
  exact ⟨v, v₀, m, m₀, hv, hv₀, hm, hm₀, hfields⟩

/-- A custom definition of `em` that leaves the categories out makes the element lose them. -/
theorem deprecated_em_loses_categories :
    ∃ v v₀ m m₀, Vocabulary.htmlWith deprecatedEm = .ok v ∧
      Vocabulary.htmlWith (deprecatedEm.without "em") = .ok v₀ ∧
      v.find? "em" = some m ∧ v₀.find? "em" = some m₀ ∧
      ({ deprecated := some (.flag true) } : ElementDefinition).sets .categories = false ∧
      ¬ m.AgreesOn m₀ .categories := by
  obtain ⟨v, v₀, hv, hv₀, hwith, hwithout⟩ := htmlWith_deprecatedEm
  obtain ⟨m, hm, hcategories⟩ := Option.map_eq_some_iff.mp hwith
  obtain ⟨m₀, hm₀, hcategories₀⟩ := Option.map_eq_some_iff.mp hwithout
  refine ⟨v, v₀, m, m₀, hv, hv₀, hm, hm₀, rfl, ?_⟩
  show ¬ m.categories = m₀.categories
  rw [hcategories, hcategories₀]
  decide

end HtmlLint
