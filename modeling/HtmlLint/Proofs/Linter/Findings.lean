import HtmlLint.Linter
import HtmlLint.Proofs.Element.Html
import HtmlLint.Proofs.List

/-!
# What the standard rules find

The standard rules look at documents and events in many ways, but what they say is about few things:
`Finding.Concerns` lists them, each with the place that the finding has.  Every standard rule but
`close-order` finds only such things (`Rule.IsStandard.isLocal`); `close-order` speaks of end tags
that belong to no element, and always at the place of the event.

`Linter.of_mem_messages` puts this together with settings and sessions: whatever a linter with the
standard rules says about a source, it says at a moment of the source's parsing because a rule has
found one of these things.
-/

namespace HtmlLint

/-- The moment shows the element of this number: it is about its end, or it has it in its
document. -/
def Moment.Shows (m : Moment) (i : NodeId) : Prop :=
  (∃ previous kind location, m.event = .tagClose i previous kind location) ∨
  (∃ location, m.event = .elementReady i location) ∨
  ∃ j n, m.document.get? j = some n ∧ n.isElement = true ∧ n.id = i

/-- What a finding at a moment is about, and which place it has if not that of the event. -/
inductive Finding.Concerns (m : Moment) (f : Finding) : Prop where
  /-- the document as a whole -/
  | document (hn : f.node = none) (hl : f.location = none)
  /-- an element that is opened -/
  | opened {i : NodeId} {location : Location} (he : m.event = .tagOpen i location)
      (hn : f.node = some i) (hl : f.location = none)
  /-- an element that is shown, at the place of its start tag -/
  | element {i : NodeId} (hi : m.Shows i) (hn : f.node = some i)
      (hl : f.location = some (m.document.node i).location)
  /-- an attribute, or its value at the place of that -/
  | attr {i : NodeId} {a : Attribute} (he : m.event = .attr i a) (hn : f.node = some i)
      (hl : f.location = none ∨ ∃ value, a.value = some value ∧ f.location = some value.location)

/-- The rule finds only such things. -/
def Rule.IsLocal (r : Rule) : Prop :=
  ∀ v history m f, f ∈ r.findings v history m → f.Concerns m

/-! ## The content model -/

namespace ContentModel

variable {v : Vocabulary} {d : Document} {id : NodeId}

/-- An element that is a child is one of the document's nodes. -/
theorem of_mem_childElements {n : Node} (h : n ∈ d.childElements id) :
    ∃ p, d.get? id = some p ∧ ∃ j ∈ p.children, d.get? j = some n ∧ n.isElement = true := by
  unfold Document.childElements at h
  split at h
  · rename_i p hp
    obtain ⟨hmem, helement⟩ := List.mem_filter.mp h
    obtain ⟨j, hj, hn⟩ := List.mem_filterMap.mp hmem
    exact ⟨p, hp, j, hj, hn, helement⟩
  · cases h

/-- The children that something is known about are children. -/
theorem of_mem_knownChildren {c : Node × ElementModel} (h : c ∈ knownChildren v d id) :
    c.1 ∈ d.childElements id := by
  obtain ⟨n, hn, hc⟩ := List.mem_filterMap.mp h
  obtain ⟨model, -, rfl⟩ := Option.map_eq_some_iff.mp hc
  exact hn

/-- What comes too late is one of the children. -/
theorem of_mem_misplaced {groups : List (List Pattern)} {highest : Option (Nat × Node)}
    {children : List (Node × ElementModel)} {x : Node × Node}
    (h : x ∈ misplaced groups highest children) :
    ∃ model, (x.1, model) ∈ children := by
  fun_induction misplaced groups highest children with
  | case1 highest => cases h
  | case2 highest child model rest hrank ih =>
    exact (ih h).imp fun _ => List.mem_cons_of_mem _
  | case3 child model rest rank hrank ih => exact (ih h).imp fun _ => List.mem_cons_of_mem _
  | case4 child model rest rank hrank top first hlt ih =>
    cases List.mem_cons.mp h with
    | inl h =>
      rw [h]
      exact ⟨model, List.mem_cons_self ..⟩
    | inr h => exact (ih h).imp fun _ => List.mem_cons_of_mem _
  | case5 child model rest rank first hrank hlt ih =>
    exact (ih h).imp fun _ => List.mem_cons_of_mem _
  | case6 child model rest rank hrank top first hlt heq ih =>
    exact (ih h).imp fun _ => List.mem_cons_of_mem _

/-- What is wrong with a node is wrong with the node itself or with one of the elements in it. -/
theorem node_of_mem_violations (check : ContentCheck) {x : Violation}
    (h : x ∈ check.violations v d id) :
    x.node = id ∨ ∃ n ∈ d.childElements id, n.id = x.node := by
  cases check with
  | permittedContent =>
    simp only [ContentCheck.violations, permittedContent] at h
    split at h
    · cases h
    · split at h
      · cases h
      · obtain ⟨c, hc, rfl⟩ := List.mem_map.mp h
        exact .inr ⟨c.1, of_mem_knownChildren (List.mem_filter.mp hc).1, rfl⟩
  | permittedParent =>
    -- the checks of an element itself name that element
    left
    simp only [ContentCheck.violations, permittedParent] at h
    split at h
    · split at h
      · cases h
      · split at h
        · cases h
        · split at h
          · cases h
          · rw [List.mem_singleton.mp h]
          · rw [List.mem_singleton.mp h]
    · cases h
  | permittedOrder =>
    simp only [ContentCheck.violations, permittedOrder] at h
    split at h
    · cases h
    · obtain ⟨c, hc, rfl⟩ := List.mem_map.mp h
      obtain ⟨model, hmem⟩ := of_mem_misplaced hc
      exact .inr ⟨c.1, of_mem_knownChildren hmem, rfl⟩
  | permittedOccurrences =>
    simp only [ContentCheck.violations, permittedOccurrences] at h
    split at h
    · cases h
    · obtain ⟨limit, -, hlimit⟩ := List.mem_flatMap.mp h
      obtain ⟨c, hc, rfl⟩ := List.mem_map.mp hlimit
      exact .inr ⟨c.1, of_mem_knownChildren (List.mem_filter.mp (List.mem_of_mem_drop hc)).1, rfl⟩
  | requiredContent =>
    left
    simp only [ContentCheck.violations, requiredContent] at h
    split at h
    · cases h
    · obtain ⟨p, -, rfl⟩ := List.mem_map.mp h
      rfl
  | requiredAncestors =>
    left
    simp only [ContentCheck.violations, requiredAncestors] at h
    split at h
    · cases h
    · split at h
      · cases h
      · rw [List.mem_singleton.mp h]
  | requiredAttributes =>
    left
    simp only [ContentCheck.violations, requiredAttributes] at h
    split at h
    · cases h
    · obtain ⟨key, -, rfl⟩ := List.mem_map.mp h
      rfl

end ContentModel

/-! ## The rules -/

namespace Rule

/-- The checks of the content speak of the element that is complete, or of one that its document
has. -/
private theorem contentModel_isLocal (check : ContentCheck) : (contentModel check).IsLocal := by
  intro v history m f h
  simp only [contentModel] at h
  split at h
  · rename_i target location he
    obtain ⟨x, hx, rfl⟩ := List.mem_map.mp h
    refine .element ?_ rfl rfl
    obtain hself | ⟨n, hn, hid⟩ := ContentModel.node_of_mem_violations check hx
    · rw [hself]
      exact .inr (.inl ⟨location, he⟩)
    · obtain ⟨p, -, j, -, hj, helement⟩ := ContentModel.of_mem_childElements hn
      exact .inr (.inr ⟨j, n, hj, helement, hid⟩)
  · cases h

/-- The rule speaks of the element that is closed. -/
private theorem noSelfClosing_isLocal (o : NoSelfClosingOptions) : (noSelfClosing o).IsLocal := by
  intro v history m f h
  simp only [noSelfClosing] at h
  split at h
  · rename_i target previous kind location he
    obtain ⟨-, hfound⟩ := List.mem_ite_nil_right.mp h
    rw [List.mem_singleton.mp hfound]
    exact .element (.inl ⟨previous, kind, location, he⟩) rfl rfl
  · cases h

/-- The rule speaks of the document. -/
private theorem missingDoctype_isLocal : missingDoctype.IsLocal := by
  intro v history m f h
  simp only [missingDoctype] at h
  split at h
  · rw [List.mem_singleton.mp h]
    exact .document rfl rfl
  · cases h

/-- The rule itself finds nothing. -/
private theorem unusedSuppressions_isLocal : unusedSuppressions.IsLocal := by
  intro v history m f h
  cases h

/-- That a rule is not defined is said of the document. -/
private theorem undefined_isLocal (id : String) : (undefined id).IsLocal := by
  intro v history m f h
  rw [List.mem_singleton.mp h]
  exact .document rfl rfl

/-- The rule speaks of the element that is opened. -/
private theorem deprecated_isLocal : deprecated.IsLocal := by
  intro v history m f h
  simp only [deprecated] at h
  split at h
  · rename_i target location he
    split at h
    · cases h
    · rw [List.mem_singleton.mp h]
      exact .opened he rfl rfl
  · cases h

/-- So does the rule about unknown elements. -/
private theorem noUnknownElements_isLocal (o : NoUnknownElementsOptions) :
    (noUnknownElements o).IsLocal := by
  intro v history m f h
  simp only [noUnknownElements] at h
  split at h
  · rename_i target location he
    split at h
    · cases h
    · rw [List.mem_singleton.mp h]
      exact .opened he rfl rfl
  · cases h

/-- The rule speaks of the attribute that comes. -/
private theorem noDupAttr_isLocal : noDupAttr.IsLocal := by
  intro v history m f h
  simp only [noDupAttr] at h
  split at h
  · rename_i target a he
    split at h
    · rw [List.mem_singleton.mp h]
      exact .attr he rfl (.inl rfl)
    · cases h
  · cases h

/-- The rule speaks of the value of the attribute that comes. -/
private theorem attrQuotes_isLocal (o : AttrQuotesOptions) : (attrQuotes o).IsLocal := by
  intro v history m f h
  simp only [attrQuotes] at h
  split at h
  · rename_i target a he
    split at h
    · cases h
    · rename_i value hvalue
      obtain ⟨text, -, rfl⟩ := List.mem_map.mp h
      exact .attr he rfl (.inr ⟨value, hvalue, rfl⟩)
  · cases h

/-- The rule speaks of the attribute that comes. -/
private theorem noInlineStyle_isLocal : noInlineStyle.IsLocal := by
  intro v history m f h
  simp only [noInlineStyle] at h
  split at h
  · rename_i target a he
    split at h
    · rw [List.mem_singleton.mp h]
      exact .attr he rfl (.inl rfl)
    · cases h
  · cases h

/-- What `close-order` finds has the place of the event. -/
private theorem location_of_mem_closeOrder {o : CloseOrderOptions} {v : Vocabulary}
    {history : List Event} {m : Moment} {f : Finding}
    (h : f ∈ (closeOrder o).findings v history m) : f.location = none := by
  simp only [closeOrder] at h
  split at h
  · split at h
    · rw [List.mem_singleton.mp h]
    · cases h
  · cases h

/-! ## The registry -/

/-- A rule with options is made with some options. -/
private theorem exists_of_withOptions {α : Type} {read : α → String → Toml.Value → Option α}
    {usual : α} {make : α → Rule} {options : Option Toml.Table} {r : Rule}
    (h : withOptions read usual make options = some r) :
    ∃ o, r = make o := by
  unfold withOptions at h
  split at h
  · exact ⟨usual, (Option.some.inj h).symm⟩
  · obtain ⟨o, -, rfl⟩ := Option.map_eq_some_iff.mp h
    exact ⟨o, rfl⟩

end Rule

/-- What is stored in a map that is made from a list comes from the list. -/
theorem NameMap.mem_of_get?_ofList {α : Type} {entries : List (String × α)} {name : String}
    {value : α} (h : (ofList entries).get? name = some value) : (name, value) ∈ entries := by
  suffices hfold : ∀ m : NameMap α,
      (entries.foldl (fun m e => m.insert e.1 e.2) m).get? name = some value →
        (name, value) ∈ entries ∨ m.get? name = some value from
    (hfold empty h).resolve_right (by simp)
  intro m hm
  clear h
  induction entries generalizing m with
  | nil => exact .inr hm
  | cons e entries ih =>
    obtain hmem | hfirst := ih _ hm
    · exact .inl (List.mem_cons_of_mem _ hmem)
    · rw [get?_insert] at hfirst
      split at hfirst
      · rename_i hname
        cases hfirst
        exact .inl (hname ▸ List.mem_cons_self ..)
      · exact .inr hfirst

/-- The rule is one of the standard rules, whatever its options, and goes by this name; for the
checks of the content model any name will do. -/
inductive Rule.IsStandard : String → Rule → Prop where
  | attrQuotes (o : AttrQuotesOptions) : IsStandard "attr-quotes" (attrQuotes o)
  | closeOrder (o : CloseOrderOptions) : IsStandard "close-order" (closeOrder o)
  | deprecated : IsStandard "deprecated" deprecated
  | contentModel (id : String) (check : ContentCheck) : IsStandard id (contentModel check)
  | missingDoctype : IsStandard "missing-doctype" missingDoctype
  | noDupAttr : IsStandard "no-dup-attr" noDupAttr
  | noInlineStyle : IsStandard "no-inline-style" noInlineStyle
  | noSelfClosing (o : NoSelfClosingOptions) : IsStandard "no-self-closing" (noSelfClosing o)
  | noUnknownElements (o : NoUnknownElementsOptions) :
    IsStandard "no-unknown-elements" (noUnknownElements o)
  | unusedSuppressions : IsStandard noUnusedDisable unusedSuppressions

/-- What the standard registry makes is a standard rule. -/
theorem Rule.isStandard_of_get? {id : String} {make : RuleMaker} {options : Option Toml.Table}
    {r : Rule} (hmake : Registry.standard.get? id = some make) (hr : make options = some r) :
    IsStandard id r := by
  have hmem := NameMap.mem_of_get?_ofList hmake
  simp only [List.mem_cons, Prod.mk.injEq, List.not_mem_nil, or_false] at hmem
  -- the table holds two sorts of makers: with options, and without
  have hplain : ∀ {rule : Rule}, make = rule.plain → r = rule := by
    rintro rule rfl
    exact (Option.some.inj hr).symm
  obtain ⟨rfl, rfl⟩ | ⟨rfl, rfl⟩ | ⟨rfl, h⟩ | ⟨-, h⟩ | ⟨-, h⟩ | ⟨-, h⟩ | ⟨-, h⟩ | ⟨-, h⟩
    | ⟨-, h⟩ | ⟨-, h⟩ | ⟨rfl, h⟩ | ⟨rfl, h⟩ | ⟨rfl, h⟩ | ⟨rfl, rfl⟩ | ⟨rfl, rfl⟩ | ⟨rfl, h⟩ := hmem
  · obtain ⟨o, rfl⟩ := exists_of_withOptions hr
    exact .attrQuotes o
  · obtain ⟨o, rfl⟩ := exists_of_withOptions hr
    exact .closeOrder o
  · exact hplain h ▸ .deprecated
  · exact hplain h ▸ .contentModel ..
  · exact hplain h ▸ .contentModel ..
  · exact hplain h ▸ .contentModel ..
  · exact hplain h ▸ .contentModel ..
  · exact hplain h ▸ .contentModel ..
  · exact hplain h ▸ .contentModel ..
  · exact hplain h ▸ .contentModel ..
  · exact hplain h ▸ .missingDoctype
  · exact hplain h ▸ .noDupAttr
  · exact hplain h ▸ .noInlineStyle
  · obtain ⟨o, rfl⟩ := exists_of_withOptions hr
    exact .noSelfClosing o
  · obtain ⟨o, rfl⟩ := exists_of_withOptions hr
    exact .noUnknownElements o
  · exact hplain h ▸ .unusedSuppressions

/-- All standard rules but one are local. -/
theorem Rule.IsStandard.isLocal {id : String} {r : Rule} (h : IsStandard id r) :
    r.IsLocal ∨ id = "close-order" ∧ ∃ o, r = Rule.closeOrder o := by
  cases h with
  | attrQuotes o => exact .inl (attrQuotes_isLocal o)
  | closeOrder o => exact .inr ⟨rfl, o, rfl⟩
  | deprecated => exact .inl deprecated_isLocal
  | contentModel _ check => exact .inl (contentModel_isLocal check)
  | missingDoctype => exact .inl missingDoctype_isLocal
  | noDupAttr => exact .inl noDupAttr_isLocal
  | noInlineStyle => exact .inl noInlineStyle_isLocal
  | noSelfClosing o => exact .inl (noSelfClosing_isLocal o)
  | noUnknownElements o => exact .inl (noUnknownElements_isLocal o)
  | unusedSuppressions => exact .inl unusedSuppressions_isLocal

/-! ## Settings -/

/-- A rule that runs comes from the registry, or stands for a name without a rule. -/
theorem Settings.of_mem_activeRules {s : Settings} {registry : Registry} {rules : List ActiveRule}
    (h : s.activeRules registry = .ok rules) {r : ActiveRule} (hr : r ∈ rules) :
    r.rule = .undefined r.id ∨
      ∃ make options, registry.get? r.id = some make ∧ make options = some r.rule := by
  obtain ⟨⟨id, setting⟩, -, hmade⟩ := exists_of_mem_mapM h hr
  simp only at hmade
  split at hmade
  · cases hmade
    exact .inl rfl
  · rename_i make hmake
    split at hmade
    · cases hmade
    · rename_i rule hrule
      cases hmade
      exact .inr ⟨make, setting.options, hmake, hrule⟩

/-- Settings that define no elements are about the elements of HTML. -/
theorem Linter.ofSettings_of_html {registry : Registry} {s : Settings} (h : s.elements = .empty) :
    ofSettings registry s =
      (s.activeRules registry).map fun rules =>
      ⟨htmlVocabulary, rules, s.rules.keys, Document.selector?⟩ := by
  unfold ofSettings
  rw [h, Vocabulary.htmlWith_empty]
  cases s.activeRules registry <;> rfl

/-- The rules of a linter are those that its settings turn on. -/
theorem Linter.activeRules_of_ofSettings {registry : Registry} {s : Settings} {l : Linter}
    (h : ofSettings registry s = .ok l) : s.activeRules registry = .ok l.rules := by
  unfold ofSettings at h
  cases hv : (Vocabulary.htmlWith s.elements).mapError SettingsError.inheritance with
  | error e => rw [hv] at h; cases h
  | ok v =>
    cases hrules : s.activeRules registry with
    | error e => rw [hv, hrules] at h; cases h
    | ok rules =>
      rw [hv, hrules] at h
      cases h
      rfl

/-! ## Sessions -/

namespace Session

/-- A session watches suppressions as if nothing else were watched. -/
theorem suppressions_foldl (s : Session) (ms : List Moment) :
    (ms.foldl observe s).suppressions = ms.foldl Suppressions.observe s.suppressions := by
  induction ms generalizing s with
  | nil => rfl
  | cons m ms ih => rw [List.foldl_cons, ih]; rfl

/-- Every message comes from a rule at a moment. -/
theorem of_mem_messages {s : Session} {ms : List Moment} {message : Message}
    (h : message ∈ (ms.foldl observe s).messages) :
    message ∈ s.messages ∨
      ∃ m ∈ ms, ∃ r ∈ s.rules, ∃ history, message ∈ r.messages s.vocabulary history m := by
  induction ms generalizing s with
  | nil => exact .inl h
  | cons m ms ih =>
    obtain hmem | ⟨m', hm', r, hr, hfound⟩ := ih h
    · cases List.mem_append.mp hmem with
      | inl hmem => exact .inl hmem
      | inr hmem =>
        obtain ⟨r, hr, hmem⟩ := List.mem_flatMap.mp hmem
        exact .inr ⟨m, List.mem_cons_self .., r, hr, s.history, hmem⟩
    · exact .inr ⟨m', List.mem_cons_of_mem _ hm', r, hr, hfound⟩

end Session

/-- Whatever a linter with the standard rules says comes from a finding that concerns a moment, or
has the place of the event and comes from `close-order`. -/
theorem Linter.of_mem_messages {settings : Settings} {l : Linter}
    (hl : ofSettings .standard settings = .ok l) {ms : List Moment} {message : Message}
    (h : message ∈ (ms.foldl Session.observe l.session).messages) :
    ∃ m ∈ ms, ∃ r ∈ l.rules, ∃ f : Finding, message = r.message m f ∧
      (f.Concerns m ∨ r.id = "close-order" ∧ f.location = none) := by
  obtain hnone | ⟨m, hm, r, hr, history, hmem⟩ := Session.of_mem_messages h
  · cases hnone
  · obtain ⟨-, f, hf, rfl⟩ := ActiveRule.of_mem_messages hmem
    refine ⟨m, hm, r, hr, f, rfl, ?_⟩
    obtain hundefined | ⟨make, options, hmake, hmade⟩ :=
      Settings.of_mem_activeRules (activeRules_of_ofSettings hl) hr
    · rw [hundefined] at hf
      exact .inl (Rule.undefined_isLocal _ _ _ _ _ hf)
    · obtain hlocal | ⟨hid, o, heq⟩ := (Rule.isStandard_of_get? hmake hmade).isLocal
      · exact .inl (hlocal _ _ _ _ hf)
      · rw [heq] at hf
        exact .inr ⟨hid, Rule.location_of_mem_closeOrder hf⟩

end HtmlLint
