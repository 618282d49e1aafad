import HtmlLint.Proofs.Construction.Tree
import HtmlLint.Proofs.Element.Html
import HtmlLint.Proofs.Linter.Findings

/-!
# Elements without a model

An element without a model does nothing wrong, neither as a child nor as a parent.  Every violation
concerns a node with a model (`ContentCheck.Concerns`), and where a check looks at the children of a
node, those without a model might as well not be there: `violations_ignore_unknown`.

Some checks look at elements without a model all the same: the pattern of a tag describes an element
that has none.  So it is only for the three checks that report children that elements may be taken
out.
-/

namespace HtmlLint

/-- The node has a model. -/
def Vocabulary.Knows (v : Vocabulary) (n : Node) : Prop :=
  ∃ model, v.modelOf? n = some model

namespace ContentCheck

/-- The check reports children of the node that it looks at. -/
def reportsChildren : ContentCheck → Bool
  | permittedContent | permittedOrder | permittedOccurrences => true
  | permittedParent | requiredContent | requiredAncestors | requiredAttributes => false

/-- What it takes for a node to be reported when a check looks at the node `id`, which must have a
model. -/
def Concerns (check : ContentCheck) (v : Vocabulary) (d : Document) (id reported : NodeId) : Prop :=
  (∃ n, d.get? id = some n ∧ v.Knows n) ∧
  match check with
  | permittedContent | permittedOrder | permittedOccurrences =>
    ∃ child ∈ d.childElements id, child.id = reported ∧ v.Knows child
  | permittedParent =>
    reported = id ∧
      ∃ parent, d.parent? id = some parent ∧ parent.isElement = true ∧ parent.isRoot = false ∧
      v.Knows parent
  | requiredContent | requiredAncestors | requiredAttributes => reported = id

end ContentCheck

namespace ContentModel

variable {v : Vocabulary} {d : Document} {id : NodeId}

/-- Something is known about elements only. -/
private theorem isElement_of_knows {n : Node} (h : v.Knows n) : n.isElement = true := by
  obtain ⟨model, hmodel⟩ := h
  cases helement : n.isElement with
  | true => rfl
  | false => simp [Vocabulary.modelOf?, helement] at hmodel

/-- What is known about a node is known about it in the vocabulary. -/
private theorem of_known?_eq_some {n : Node} {model : ElementModel}
    (h : known? v d id = some (n, model)) :
    d.get? id = some n ∧ v.modelOf? n = some model := by
  obtain ⟨m, hm, hmodel⟩ := Option.bind_eq_some_iff.mp h
  obtain ⟨other, hother, heq⟩ := Option.map_eq_some_iff.mp hmodel
  cases heq
  exact ⟨hm, hother⟩

/-- The children that something is known about are children, and something is known about them. -/
private theorem knows_of_mem_knownChildren {c : Node × ElementModel}
    (h : c ∈ knownChildren v d id) :
    c.1 ∈ d.childElements id ∧ v.Knows c.1 := by
  refine ⟨of_mem_knownChildren h, ?_⟩
  obtain ⟨n, -, hc⟩ := List.mem_filterMap.mp h
  obtain ⟨model, hmodel, rfl⟩ := Option.map_eq_some_iff.mp hc
  exact ⟨model, hmodel⟩

/-! ## What is reported -/

/-- A check finds nothing wrong about a node without a model. -/
private theorem violations_eq_nil (check : ContentCheck) (h : known? v d id = none) :
    check.violations v d id = [] := by
  cases check <;>
    simp [ContentCheck.violations, permittedContent, permittedParent, permittedOrder,
      permittedOccurrences, requiredContent, requiredAncestors, requiredAttributes, h]

/-- Only nodes with a model are reported, and only where the node that is looked at has one. -/
private theorem concerns_of_mem_violations (check : ContentCheck) {x : Violation}
    (h : x ∈ check.violations v d id) :
    check.Concerns v d id x.node := by
  cases hknown : known? v d id with
  | none =>
    rw [violations_eq_nil check hknown] at h
    cases h
  | some found =>
    obtain ⟨n, model⟩ := found
    obtain ⟨hn, hmodel⟩ := of_known?_eq_some hknown
    have hchild : ∀ {c}, c ∈ knownChildren v d id →
        ∃ child ∈ d.childElements id, child.id = c.1.id ∧ v.Knows child := by
      intro c hc
      obtain ⟨hmem, hknows⟩ := knows_of_mem_knownChildren hc
      exact ⟨c.1, hmem, rfl, hknows⟩
    refine ⟨⟨n, hn, model, hmodel⟩, ?_⟩
    cases check with
    | permittedContent =>
      simp only [ContentCheck.violations, permittedContent, hknown] at h
      split at h
      · cases h
      · obtain ⟨c, hc, rfl⟩ := List.mem_map.mp h
        exact hchild (List.mem_filter.mp hc).1
    | permittedOrder =>
      simp only [ContentCheck.violations, permittedOrder, hknown] at h
      obtain ⟨pair, hpair, rfl⟩ := List.mem_map.mp h
      obtain ⟨other, hother⟩ := of_mem_misplaced hpair
      exact hchild hother
    | permittedOccurrences =>
      simp only [ContentCheck.violations, permittedOccurrences, hknown] at h
      obtain ⟨limit, -, hlimit⟩ := List.mem_flatMap.mp h
      obtain ⟨c, hc, rfl⟩ := List.mem_map.mp hlimit
      exact hchild (List.mem_filter.mp (List.mem_of_mem_drop hc)).1
    | permittedParent =>
      simp only [ContentCheck.violations, permittedParent, hknown] at h
      -- the check gives up without a parent, at the root and at a parent without a model
      split at h
      · rename_i parent hfound hparent
        cases hfound
        split at h
        · cases h
        · rename_i hroot
          split at h
          · cases h
          · rename_i parentModel hparentModel
            have hknows : v.Knows parent := ⟨parentModel, hparentModel⟩
            refine ⟨?_, parent, hparent, isElement_of_knows hknows, ?_, hknows⟩
            · split at h
              · cases h
              · rw [List.mem_singleton.mp h]
              · rw [List.mem_singleton.mp h]
            · simp_all
      · cases h
    | requiredContent =>
      simp only [ContentCheck.violations, requiredContent, hknown] at h
      obtain ⟨p, -, rfl⟩ := List.mem_map.mp h
      rfl
    | requiredAncestors =>
      simp only [ContentCheck.violations, requiredAncestors, hknown] at h
      split at h
      · cases h
      · rw [List.mem_singleton.mp h]
    | requiredAttributes =>
      simp only [ContentCheck.violations, requiredAttributes, hknown] at h
      obtain ⟨key, -, rfl⟩ := List.mem_map.mp h
      rfl

/-- Where nodes go by their numbers, a node that is reported is found under its number and has a
model. -/
private theorem exists_get?_of_concerns {check : ContentCheck} {reported : NodeId}
    (h : check.Concerns v d id reported) (hnumbered : ∀ i n, d.get? i = some n → n.id = i) :
    ∃ n, d.get? reported = some n ∧ v.Knows n := by
  obtain ⟨hself, hreported⟩ := h
  have hchild : (∃ child ∈ d.childElements id, child.id = reported ∧ v.Knows child) →
      ∃ n, d.get? reported = some n ∧ v.Knows n := by
    rintro ⟨child, hmem, rfl, hknows⟩
    obtain ⟨parent, -, j, -, hj, -⟩ := of_mem_childElements hmem
    exact ⟨child, by rw [hnumbered j child hj, hj], hknows⟩
  cases check with
  | permittedContent | permittedOrder | permittedOccurrences => exact hchild hreported
  | permittedParent => rw [hreported.1]; exact hself
  | requiredContent | requiredAncestors | requiredAttributes => rw [hreported]; exact hself

/-! ## What does not matter -/

/-- All of an element but what it holds. -/
def emptied (n : Node) : Node :=
  { n with children := [] }

/-- All of an element but what it holds, with its model. -/
def withoutChildren (c : Node × ElementModel) : Node × ElementModel :=
  (emptied c.1, c.2)

/-- The check of the order does not look at what the children hold. -/
private theorem misplaced_withoutChildren (groups : List (List Pattern))
    (highest : Option (Nat × Node)) (l : List (Node × ElementModel)) :
    misplaced groups (highest.map fun kept => (kept.1, emptied kept.2)) (l.map withoutChildren) =
      (misplaced groups highest l).map fun pair => (emptied pair.1, emptied pair.2) := by
  -- the rank is told by the tag and the model, so that both searches take the same branch at every
  -- child
  have hrank : ∀ n model, rank? groups (emptied n) model = rank? groups n model := fun _ _ => rfl
  fun_induction misplaced groups highest l with
  | case1 highest => rfl
  | case2 highest child model rest hnone ih =>
    simp only [List.map_cons, withoutChildren, misplaced, hrank, hnone, ih]
  | case3 child model rest rank hsome ih =>
    simp only [List.map_cons, withoutChildren, misplaced, hrank, hsome, Option.map_none]
    exact ih
  | case4 child model rest rank top first hsome hlt ih =>
    simp only [List.map_cons, withoutChildren, misplaced, hrank, hsome, Option.map_some, if_pos hlt]
    exact congrArg _ ih
  | case5 child model rest rank first hsome hlt ih =>
    simp only [List.map_cons, withoutChildren, misplaced, hrank, hsome, Option.map_some,
      if_neg hlt, if_true]
    exact ih
  | case6 child model rest rank top first hsome hlt heq ih =>
    simp only [List.map_cons, withoutChildren, misplaced, hrank, hsome, Option.map_some,
      if_neg hlt, if_neg heq]
    exact ih

/-- A check that reports children depends on the node and on its children with a model, and not on
what these hold. -/
private theorem violations_congr {d' : Document} (check : ContentCheck)
    (hcheck : check.reportsChildren = true)
    (hself : (known? v d id).map withoutChildren = (known? v d' id).map withoutChildren)
    (hchildren : (knownChildren v d id).map withoutChildren =
      (knownChildren v d' id).map withoutChildren) :
    check.violations v d id = check.violations v d' id := by
  cases hknown : known? v d id with
  | none =>
    have hknown' : known? v d' id = none := by simpa [hknown] using hself.symm
    rw [violations_eq_nil check hknown, violations_eq_nil check hknown']
  | some found =>
    obtain ⟨n, model⟩ := found
    obtain ⟨⟨n', model'⟩, hknown', hsame⟩ : ∃ found', known? v d' id = some found' ∧
        withoutChildren found' = withoutChildren (n, model) :=
      Option.map_eq_some_iff.mp (by rw [← hself, hknown]; rfl)
    -- of the node itself a check needs the model and the tag, which is part of the texts
    obtain rfl : model' = model := congrArg Prod.snd hsame
    have htag : n'.tag = n.tag := congrArg (·.1.tag) hsame
    cases check with
    | permittedContent =>
      simp only [ContentCheck.violations, permittedContent, hknown, hknown', Node.displayName, htag]
      split
      · rfl
      · exact map_filter_congr hchildren (fun _ => rfl) fun _ => rfl
    | permittedOrder =>
      simp only [ContentCheck.violations, permittedOrder, hknown, hknown']
      -- the pairs differ in what their elements hold, and the texts tell nothing of that
      have hfound := misplaced_withoutChildren model'.permittedOrder none (knownChildren v d id)
      have hfound' := misplaced_withoutChildren model'.permittedOrder none (knownChildren v d' id)
      rw [hchildren, hfound'] at hfound
      exact map_congr_of_map hfound.symm fun _ => rfl
    | permittedOccurrences =>
      simp only [ContentCheck.violations, permittedOccurrences, hknown, hknown', Node.displayName,
        htag, List.map_drop]
      congr 1
      funext limit
      congr 1
      exact map_filter_congr hchildren (fun _ => rfl) fun _ => rfl
    | permittedParent | requiredContent | requiredAncestors | requiredAttributes => cases hcheck

/-! ## Taking elements out -/

/-- They can be picked from the numbers of the children. -/
private theorem knownChildren_eq {n : Node} (h : d.get? id = some n) :
    knownChildren v d id = n.children.filterMap (known? v d) := by
  rw [knownChildren, Document.childElements, h, List.filterMap_filter, List.filterMap_filterMap]
  -- what is no element has no model, so that nothing is lost by not asking for elements
  congr 1
  funext k
  rw [known?]
  congr 1
  funext child
  cases helement : child.isElement <;> simp [Vocabulary.modelOf?, helement]

end ContentModel

/-- Some of the children of a node are taken out.  What becomes of them does not matter, and the
rest of the document stays as it is. -/
structure Document.TakesOut (d d' : Document) (id : NodeId) (gone : NodeId → Bool) : Prop where
  parent : d'.get? id = (d.get? id).map fun n => { n with children := n.children.filter (!gone ·) }
  others : ∀ k, k ≠ id → gone k = false → d'.get? k = d.get? k

namespace Document.TakesOut

open ContentModel

variable {v : Vocabulary} {d d' : Document} {id : NodeId} {gone : NodeId → Bool}

/-- What is known about the node itself stays when children are taken out of it. -/
private theorem known?_id (h : d.TakesOut d' id gone) :
    (known? v d' id).map withoutChildren = (known? v d id).map withoutChildren := by
  rw [known?, known?, h.parent]
  cases d.get? id with
  | none => rfl
  | some n =>
    have hmodel : v.modelOf? { n with children := n.children.filter (!gone ·) } =
        v.modelOf? n := rfl
    simp only [Option.map_some, Option.bind_some, hmodel, Option.map_map]
    rfl

/-- Children are taken out by changing the list that their parent has. -/
private theorem modify (d : Document) (id : NodeId) (gone : NodeId → Bool) :
    d.TakesOut (d.modify id fun n => { n with children := n.children.filter (!gone ·) })
    id gone where
  parent := d.get?_modify_self id _
  others _ hne _ := get?_modify_of_ne (Ne.symm hne) _

/-- What is left keeps its model. -/
private theorem known?_of_left (h : d.TakesOut d' id gone) {k : NodeId} (hk : gone k = false) :
    (known? v d' k).map withoutChildren = (known? v d k).map withoutChildren := by
  by_cases hself : k = id
  · rw [hself]
    exact h.known?_id
  · rw [known?, known?, h.others k hself hk]

/-- If only elements without a model are taken out, the children with a model stay. -/
private theorem knownChildren (h : d.TakesOut d' id gone)
    (hgone : ∀ k, gone k = true → known? v d k = none) :
    (knownChildren v d' id).map withoutChildren = (knownChildren v d id).map withoutChildren := by
  cases hn : d.get? id with
  | none =>
    have hn' : d'.get? id = none := by rw [h.parent, hn]; rfl
    simp only [ContentModel.knownChildren, Document.childElements, hn, hn']
  | some n =>
    have hn' : d'.get? id = some { n with children := n.children.filter (!gone ·) } :=
      by rw [h.parent, hn]; rfl
    rw [knownChildren_eq hn, knownChildren_eq hn', List.map_filterMap, List.map_filterMap,
      List.filterMap_filter]
    -- child by child: one that is taken out was passed over before
    congr 1
    funext k
    cases hk : gone k with
    | true => simp [hgone k hk]
    | false => simpa using h.known?_of_left hk

end Document.TakesOut

namespace ContentModel

/-- Elements without a model do nothing wrong.  What a check reports has a model, and so has the
node that the check looks at; and the checks that report the children of a node return the same if
children without a model are taken out. -/
theorem violations_ignore_unknown (v : Vocabulary) (d : Document) (id : NodeId) :
    (∀ check : ContentCheck, ∀ x ∈ check.violations v d id, check.Concerns v d id x.node ∧
      ((∀ i n, d.get? i = some n → n.id = i) → ∃ n, d.get? x.node = some n ∧ v.Knows n)) ∧
    ∀ (d' : Document) (gone : NodeId → Bool), d.TakesOut d' id gone →
      (∀ k n, gone k = true → d.get? k = some n → v.modelOf? n = none) →
      ∀ check : ContentCheck, check.reportsChildren = true →
      check.violations v d' id = check.violations v d id := by
  refine ⟨fun check x hx => ?_, fun d' gone hout hgone check hcheck => ?_⟩
  · have hconcerns := concerns_of_mem_violations check hx
    exact ⟨hconcerns, exists_get?_of_concerns hconcerns⟩
  · have hunknown : ∀ k, gone k = true → known? v d k = none := by
      intro k hk
      cases hn : d.get? k with
      | none => rw [known?, hn]; rfl
      | some n => rw [known?, hn, Option.bind_some, hgone k n hk hn]; rfl
    exact violations_congr check hcheck hout.known?_id (hout.knownChildren hunknown)

/-- A block stands in a span between two elements that have no model.  It is the only one reported,
with them and without them. -/
theorem violations_ignore_unknown_span :
    let d := (Construction.record htmlVocabulary
      (tokenize "<span><my-icon></my-icon><div></div><my-icon></my-icon></span>").tokens 62).1
    let d' := d.modify 1 fun n =>
      { n with children := n.children.filter fun k => !(k == 2 || k == 4) }
    (d.get? 1).map Node.children = some [2, 3, 4] ∧ (d'.get? 1).map Node.children = some [3] ∧
      (permittedContent htmlVocabulary d 1).map Violation.node = [3] ∧
      (∃ n, d.get? 3 = some n ∧ htmlVocabulary.Knows n) ∧
      permittedContent htmlVocabulary d' 1 = permittedContent htmlVocabulary d 1 := by
  intro d d'
  have hchecked : ((d.get? 1).map Node.children, (d'.get? 1).map Node.children,
      (permittedContent htmlVocabulary d 1).map Violation.node,
      [2, 4].all fun k => ((d.get? k).bind htmlVocabulary.modelOf?).isNone) =
      (some [2, 3, 4], some [3], [3], true) := by
    decide +kernel
  simp only [Prod.mk.injEq, List.all_eq_true, Option.isNone_iff_eq_none] at hchecked
  obtain ⟨hchildren, hchildren', hreported, hnone⟩ := hchecked
  have hunknown : ∀ k n, (k == 2 || k == 4) = true → d.get? k = some n →
      htmlVocabulary.modelOf? n = none := by
    intro k n hk hn
    have hmodel := hnone k (by simpa using hk)
    rwa [hn, Option.bind_some] at hmodel
  obtain ⟨hconcerns, hsame⟩ := violations_ignore_unknown htmlVocabulary d 1
  -- the one report concerns the `div`, which the theorem says is a node with a model
  obtain ⟨x, hx, hnode⟩ := List.mem_map.mp (hreported ▸ List.mem_singleton_self 3)
  obtain ⟨-, hfound⟩ := hconcerns .permittedContent x hx
  refine ⟨hchildren, hchildren', hreported, hnode ▸ hfound fun i n => ?_, ?_⟩
  · exact (Construction.record_isTree _ _ _).id_eq
  · exact hsame d' _ (.modify d 1 _) hunknown .permittedContent rfl

end ContentModel

end HtmlLint
