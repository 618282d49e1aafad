import HtmlLint.Proofs.Construction.Finality
import HtmlLint.Proofs.Linter.Findings

/-!
# Watching and replaying

A session watches a document while it is being made.  One might as well make the document first and
then go through the events once more, with the finished document at hand: `Session.replay`.  For a
rule that looks only at what is final when it looks (`Rule.IsForesighted`) this makes no difference,
and all standard rules but `no-dup-attr` are such rules: that one asks which attributes an element
has so far, and the finished element has them all.

Suppressions learn their reach in the same way, so that the two sessions agree in everything.
-/

namespace HtmlLint

/-! ## Nodes that resemble each other -/

namespace Node.Resembles

variable {n n' : Node}

/-- Whether a node is the root can be seen early. -/
private theorem isRoot_eq (h : n.Resembles n') : n.isRoot = n'.isRoot := by
  unfold isRoot
  rw [h.kind_eq]

/-- A node is shown under the same name early and late. -/
private theorem displayName_eq (h : n.Resembles n') : n.displayName = n'.displayName := by
  unfold displayName
  rw [h.tag_eq]

/-- Whether a pattern admits a node can be seen early. -/
private theorem admits_eq (h : n.Resembles n') (p : Pattern) (model : Option ElementModel) :
    p.admits n model = p.admits n' model := by
  unfold Pattern.admits
  rw [h.tag_eq]

/-- So can what a list of permissions says about it. -/
private theorem judge_eq (h : n.Resembles n') (list : List Permission)
    (model : Option ElementModel) :
    Permission.judge list n model = Permission.judge list n' model := by
  unfold Permission.judge
  simp only [h.admits_eq]

end Node.Resembles

/-! ## The content model of a complete node -/

/-- A question about the nodes around a node has the same answer in two documents if the nodes up to
it resemble each other and the question is about what resembling nodes share. -/
private theorem Document.any_ancestors_eq {d final : Document} {f : Node → Bool}
    (hf : ∀ {m m' : Node}, m.Resembles m' → f m = f m') {i : Nat} (hi : i < d.size)
    (h : ∀ (j : Nat) (m : Node), j ≤ i → d.get? j = some m → ∃ m', final.get? j = some m' ∧
      m.Resembles m') :
    (d.ancestors i).any f = (final.ancestors i).any f := by
  induction i using Nat.strongRecOn with
  | ind i ih =>
    obtain ⟨n, hn⟩ := exists_get?_of_lt hi
    obtain ⟨n', hn', hlike⟩ := h i n (Nat.le_refl i) hn
    rw [ancestors, ancestors, hn, hn', Option.bind_some, Option.bind_some, ← hlike.parent_eq]
    cases n.parent with
    | none => rfl
    | some p =>
      -- `ancestors` follows a parent only if it is older
      by_cases hp : p < i
      · obtain ⟨m, hm⟩ := exists_get?_of_lt (Nat.lt_trans hp hi)
        obtain ⟨m', hm', hlike'⟩ := h p m (Nat.le_of_lt hp) hm
        have hrest :=
          ih p hp (Nat.lt_trans hp hi) fun j m hj => h j m (Nat.le_trans hj (Nat.le_of_lt hp))
        simp only [if_pos hp, hm, hm', List.any_cons, hf hlike', hrest]
      · simp only [if_neg hp]

namespace Node.IsComplete

variable {n : Node} {d final : Document} (v : Vocabulary)

/-- A complete node is found early as it is found in the end. -/
private theorem get?_eq (h : n.IsComplete d final) : d.get? n.id = final.get? n.id := by
  rw [h.here, h.there]

/-- What is known about a complete node stays. -/
private theorem known?_eq (h : n.IsComplete d final) :
    ContentModel.known? v d n.id = ContentModel.known? v final n.id := by
  unfold ContentModel.known?
  rw [h.get?_eq]

/-- A complete node gets no more children. -/
private theorem childElements_eq (h : n.IsComplete d final) :
    d.childElements n.id = final.childElements n.id := by
  have hmap : n.children.map d.get? = n.children.map final.get? := by
    apply List.map_congr_left
    intro c hc
    obtain ⟨m, hm, hm', -⟩ := h.children c hc
    rw [hm, hm']
  have hchildren : n.children.filterMap d.get? = n.children.filterMap final.get? := by
    have hkeep : ∀ f : Nat → Option Node, n.children.filterMap f =
        (n.children.map f).filterMap fun o => o := by
      intro f
      rw [List.filterMap_map]
      rfl
    rw [hkeep d.get?, hmap, ← hkeep]
  simp only [Document.childElements, h.here, h.there, hchildren]

/-- What is known about its children stays as well. -/
private theorem knownChildren_eq (h : n.IsComplete d final) :
    ContentModel.knownChildren v d n.id = ContentModel.knownChildren v final n.id := by
  unfold ContentModel.knownChildren
  rw [h.childElements_eq]

/-- The node itself and all nodes before it resemble those of the finished document. -/
private theorem upTo (h : n.IsComplete d final) (j : Nat) (m : Node) (hj : j ≤ n.id)
    (hm : d.get? j = some m) :
    ∃ m', final.get? j = some m' ∧ m.Resembles m' := by
  cases Nat.lt_or_eq_of_le hj with
  | inl hlt => exact h.before j m hlt hm
  | inr heq =>
    subst heq
    rw [h.here] at hm
    cases hm
    exact ⟨n, h.there, .refl n⟩

/-- The two documents agree on whether the node has a parent, and their parents resemble each
other. -/
private theorem parent?_cases (h : n.IsComplete d final) :
    d.parent? n.id = none ∧ final.parent? n.id = none ∨
      ∃ p p', d.parent? n.id = some p ∧ final.parent? n.id = some p' ∧ p.Resembles p' := by
  simp only [Document.parent?, h.here, h.there, Option.bind_some]
  cases hparent : n.parent with
  | none => exact .inl ⟨rfl, rfl⟩
  | some p =>
    have hp := h.parent_lt p hparent
    obtain ⟨m, hm⟩ := Document.exists_get?_of_lt (Nat.lt_trans hp (Document.lt_size_of_get? h.here))
    obtain ⟨m', hm', hlike⟩ := h.before p m hp hm
    exact .inr ⟨m, m', hm, hm', hlike⟩

/-- The check of the parent finds the same early and late. -/
private theorem permittedParent_eq (h : n.IsComplete d final) :
    ContentModel.permittedParent v d n.id = ContentModel.permittedParent v final n.id := by
  unfold ContentModel.permittedParent
  rw [h.known?_eq v]
  obtain ⟨hnone, hnone'⟩ | ⟨p, p', hp, hp', hlike⟩ := h.parent?_cases
  · rw [hnone, hnone']
  · rw [hp, hp']
    cases ContentModel.known? v final n.id with
    | none => rfl
    | some known =>
      simp only [hlike.isRoot_eq, hlike.modelOf?_eq, hlike.judge_eq, hlike.displayName_eq,
        hlike.tag_eq]

/-- So does the check of the ancestors. -/
private theorem requiredAncestors_eq (h : n.IsComplete d final) :
    ContentModel.requiredAncestors v d n.id = ContentModel.requiredAncestors v final n.id := by
  have haround : ∀ patterns : List Pattern,
      ((d.ancestors n.id).filter Node.isElement).any
        (fun a => patterns.any (·.admits a (v.modelOf? a))) =
        ((final.ancestors n.id).filter Node.isElement).any
          (fun a => patterns.any (·.admits a (v.modelOf? a))) := by
    intro patterns
    rw [List.any_filter, List.any_filter]
    apply Document.any_ancestors_eq _ (Document.lt_size_of_get? h.here) h.upTo
    intro m m' hlike
    simp only [hlike.isElement_eq, hlike.modelOf?_eq, hlike.admits_eq]
  simp only [ContentModel.requiredAncestors, h.known?_eq v, haround]

/-- No check of the content model finds anything else about a complete node than it finds in the
finished document. -/
private theorem violations_eq (h : n.IsComplete d final) (check : ContentCheck) :
    check.violations v d n.id = check.violations v final n.id := by
  cases check with
  | permittedContent =>
    simp only [ContentCheck.violations, ContentModel.permittedContent, h.known?_eq v,
      h.knownChildren_eq v]
  | permittedParent => exact h.permittedParent_eq v
  | permittedOrder =>
    simp only [ContentCheck.violations, ContentModel.permittedOrder, h.known?_eq v,
      h.knownChildren_eq v]
  | permittedOccurrences =>
    simp only [ContentCheck.violations, ContentModel.permittedOccurrences, h.known?_eq v,
      h.knownChildren_eq v]
  | requiredContent =>
    simp only [ContentCheck.violations, ContentModel.requiredContent, h.known?_eq v,
      h.childElements_eq]
  | requiredAncestors => exact h.requiredAncestors_eq v
  | requiredAttributes =>
    simp only [ContentCheck.violations, ContentModel.requiredAttributes, h.known?_eq v]

/-- What is wrong with a complete node is wrong with nodes that have the same place in the finished
document. -/
private theorem location_eq_of_mem_violations (h : n.IsComplete d final) {check : ContentCheck}
    {x : Violation} (hx : x ∈ check.violations v d n.id) :
    (d.node x.node).location = (final.node x.node).location := by
  obtain hself | ⟨c, hc, hid⟩ := ContentModel.node_of_mem_violations check hx
  · rw [hself, Document.node_of_get? h.here, Document.node_of_get? h.there]
  · obtain ⟨p, hp, j, hj, hget, -⟩ := ContentModel.of_mem_childElements hc
    rw [h.here] at hp
    cases hp
    obtain ⟨m, hm, hm', hmid⟩ := h.children j hj
    rw [hm] at hget
    cases hget
    rw [← hid, hmid, Document.node_of_get? hm, Document.node_of_get? hm']

end Node.IsComplete

/-! ## Rules -/

/-- What the rule finds at a moment of which all is final that an observer may rely on, it finds in
the finished document too.  At the beginning nothing is final yet, and the rule does not look. -/
structure Rule.IsForesighted (r : Rule) : Prop where
  not_domLoad : r.subscriptions.contains .domLoad = false
  findings_eq : ∀ v history m final, m.IsFinal final →
    r.findings v history m = r.findings v history ⟨m.event, final⟩

namespace Rule

/-- What is known about an element can be looked up when its start tag begins. -/
private theorem deprecated_isForesighted : deprecated.IsForesighted := by
  refine ⟨rfl, fun v history m final h => ?_⟩
  obtain ⟨e, d⟩ := m
  cases e with
  | tagOpen target location =>
    obtain ⟨n, n', hn, hn', hlike⟩ := h
    simp only [deprecated, Document.node_of_get? hn, Document.node_of_get? hn', hlike.modelOf?_eq,
      hlike.displayName_eq, hlike.tag_eq]
  | _ => rfl

/-- So can whether anything is known about it. -/
private theorem noUnknownElements_isForesighted (o : NoUnknownElementsOptions) :
    (noUnknownElements o).IsForesighted := by
  refine ⟨rfl, fun v history m final h => ?_⟩
  obtain ⟨e, d⟩ := m
  cases e with
  | tagOpen target location =>
    obtain ⟨n, n', hn, hn', hlike⟩ := h
    simp only [noUnknownElements, Document.node_of_get? hn, Document.node_of_get? hn',
      hlike.foreign_eq, hlike.displayName_eq, hlike.tag_eq]
  | _ => rfl

/-- How an element was closed is seen when it is complete. -/
private theorem noSelfClosing_isForesighted (o : NoSelfClosingOptions) :
    (noSelfClosing o).IsForesighted := by
  refine ⟨rfl, fun v history m final h => ?_⟩
  obtain ⟨e, d⟩ := m
  cases e with
  | tagClose target previous kind location =>
    obtain ⟨n, hn, hn'⟩ := h
    simp only [noSelfClosing, Document.node_of_get? hn, Document.node_of_get? hn']
  | _ => rfl

/-- The checks of an element's content look at complete elements only. -/
private theorem contentModel_isForesighted (check : ContentCheck) :
    (contentModel check).IsForesighted := by
  refine ⟨rfl, fun v history m final h => ?_⟩
  obtain ⟨e, d⟩ := m
  cases e with
  | elementReady target location =>
    obtain ⟨n, rfl, hcomplete⟩ := h
    simp only [contentModel]
    rw [← hcomplete.violations_eq v check]
    apply List.map_congr_left
    intro x hx
    rw [hcomplete.location_eq_of_mem_violations v hx]
  | _ => rfl

/-- All standard rules but one are foresighted. -/
private theorem IsStandard.isForesighted {id : String} {r : Rule} (h : IsStandard id r)
    (hid : id ≠ "no-dup-attr") :
    r.IsForesighted := by
  cases h with
  -- these rules look at the event and at those before it, but not at the document
  | attrQuotes | closeOrder | missingDoctype | noInlineStyle | unusedSuppressions =>
    exact ⟨rfl, fun _ _ _ _ _ => rfl⟩
  | deprecated => exact deprecated_isForesighted
  | contentModel _ check => exact contentModel_isForesighted check
  | noDupAttr => exact absurd rfl hid
  | noSelfClosing o => exact noSelfClosing_isForesighted o
  | noUnknownElements o => exact noUnknownElements_isForesighted o

end Rule

/-- The rules that settings turn on are foresighted unless `no-dup-attr` is among them. -/
private theorem Settings.isForesighted_of_mem_activeRules {s : Settings} {rules : List ActiveRule}
    (h : s.activeRules .standard = .ok rules) {r : ActiveRule} (hr : r ∈ rules)
    (hid : r.id ≠ "no-dup-attr") :
    r.rule.IsForesighted := by
  obtain hundefined | ⟨make, options, hmake, hmade⟩ := of_mem_activeRules h hr
  · rw [hundefined]
    exact ⟨rfl, fun _ _ _ _ _ => rfl⟩
  · exact (Rule.isStandard_of_get? hmake hmade).isForesighted hid

/-! ## Sessions -/

/-- The place of a finding is that of the event, unless the document begins or is complete. -/
private theorem Finding.place_eq {m : Moment} {final : Document} (h : m.IsFinal final)
    (hload : m.event ≠ .domLoad) (f : Finding) : f.place m = f.place ⟨m.event, final⟩ := by
  obtain ⟨e, d⟩ := m
  cases e with
  | domLoad => exact absurd rfl hload
  | domReady =>
    cases h
    rfl
  | _ => cases hl : f.location <;> simp only [place, hl, Event.location?]

/-- A foresighted rule says the same about a moment as about the finished document. -/
private theorem ActiveRule.messages_eq {r : ActiveRule} (hr : r.rule.IsForesighted) {m : Moment}
    {final : Document} (h : m.IsFinal final) (v : Vocabulary) (history : List Event) :
    r.messages v history m = r.messages v history ⟨m.event, final⟩ := by
  by_cases hload : m.event = .domLoad
  · have hkind : m.event.kind ∉ r.rule.subscriptions := by
      simpa [hload, Event.kind] using hr.not_domLoad
    rw [messages_eq_nil hkind, messages_eq_nil (m := ⟨m.event, final⟩) hkind]
  · have hmessage : r.message m = r.message ⟨m.event, final⟩ := by
      funext f
      unfold message
      rw [f.place_eq h hload]
    rw [messages, messages, hr.findings_eq v history m final h, hmessage]

/-- What a suppression learns about its reach is what the finished document would tell. -/
private theorem Suppression.observeReach_eq {m : Moment} {final : Document} (h : m.IsFinal final)
    (s : Suppression) :
    s.observeReach m = s.observeReach ⟨m.event, final⟩ := by
  obtain ⟨e, d⟩ := m
  -- what a suppression reads at a moment is final then: a parent once it is placed, a range once it
  -- is closed
  unfold observeReach
  cases e with
  | tagOpen target location =>
    obtain ⟨n, n', hn, hn', hlike⟩ := h
    have hparent : (d.get? target).bind Node.parent = (final.get? target).bind Node.parent := by
      rw [hn, hn', Option.bind_some, Option.bind_some, hlike.parent_eq]
    cases s.reach with
    | beforeNext parent => simp only [hparent]
    | _ => rfl
  | elementReady target location =>
    obtain ⟨n, rfl, hcomplete⟩ := h
    cases s.reach with
    | during node =>
      by_cases hnode : n.id = node
      · simp only [← hnode, Document.range?, hcomplete.get?_eq]
      · simp only [if_neg hnode]
    | untilClosed parent start => simp only [hcomplete.get?_eq]
    | _ => rfl
  | domReady =>
    cases h
    rfl
  | directive action _ _ _ => cases action <;> cases s.reach <;> rfl
  | tagClose _ previous kind _ => cases previous <;> cases kind <;> cases s.reach <;> rfl
  | _ => cases s.reach <;> rfl

namespace Session

/-- Go through events with a document that is already finished. -/
def replay (s : Session) (d : Document) (es : List Event) : Session :=
  es.foldl (fun s e => s.observe ⟨e, d⟩) s

variable {s : Session} {final : Document}

/-- At one moment it makes no difference whether the document is finished. -/
private theorem observe_eq (hrules : ∀ r ∈ s.rules, r.rule.IsForesighted) {m : Moment}
    (h : m.IsFinal final) :
    s.observe m = s.observe ⟨m.event, final⟩ := by
  have hsuppressions : s.suppressions.observe m = s.suppressions.observe ⟨m.event, final⟩ := by
    unfold Suppressions.observe Suppression.observe
    simp only [Suppression.observeReach_eq h]
  have hmessages : s.rules.flatMap (fun r => r.messages s.vocabulary s.history m) =
      s.rules.flatMap fun r => r.messages s.vocabulary s.history ⟨m.event, final⟩ := by
    rw [List.flatMap_def, List.flatMap_def]
    congr 1
    apply List.map_congr_left
    intro r hr
    exact ActiveRule.messages_eq (hrules r hr) h s.vocabulary s.history
  unfold observe
  rw [hsuppressions, hmessages]

/-- To replay the events of some moments is to observe the moments. -/
private theorem replay_eq_foldl (hrules : ∀ r ∈ s.rules, r.rule.IsForesighted) {ms : List Moment}
    (h : ∀ m ∈ ms, m.IsFinal final) :
    s.replay final (ms.map Moment.event) = ms.foldl observe s := by
  induction ms generalizing s with
  | nil => rfl
  | cons m ms ih =>
    rw [List.foldl_cons, observe_eq hrules (h m (List.mem_cons_self ..))]
    -- the rules of a session stay the same
    exact ih hrules fun m' hm' => h m' (List.mem_cons_of_mem _ hm')

end Session

/-- A session that watches how the document of a source is made ends like one that goes through the
recorded events with the finished document at hand: with the same messages, suppressions and
complaints, whatever standard rules run but `no-dup-attr`. -/
theorem observeParsing_eq_replay {settings : Settings} {rules : List ActiveRule}
    (hrules : settings.activeRules .standard = .ok rules) (hdup : ∀ r ∈ rules, r.id ≠ "no-dup-attr")
    {source : String} (h : (tokenize source).failure = none) (v : Vocabulary)
    (suppressions : Suppressions) :
    ∃ d es, parse v source = .ok (d, es) ∧
      observeParsing v Session.observe (.start v rules suppressions) source =
        (.ok d, (Session.start v rules suppressions).replay d es) := by
  refine ⟨_, _, parse_eq h v, ?_⟩
  rw [observeParsing_eq h, Session.replay_eq_foldl]
  · intro r hr
    exact Settings.isForesighted_of_mem_activeRules hrules hr (hdup r hr)
  · exact Construction.record_isFinal v _ _

/-- The second paragraph ends the first one, which is complete only then; it lacks an attribute,
holds an unknown element, and is never closed. -/
theorem observeParsing_eq_replay_paragraphs :
    let v : Vocabulary :=
      ⟨.ofList [("p",
        { implicitClosed := some ["p"], requiredAttributes := some ["id"] :
          ElementDefinition }.toModel "p")]⟩
    let settings : Settings :=
      ⟨.ofList [("close-order", { severity := .error }),
        ("element-required-attributes", { severity := .error }),
        ("no-unknown-elements", { severity := .warning })], .empty⟩
    let start (rules : List ActiveRule) : Session :=
      .start v rules (.start settings.rules.keys .empty)
    let source := "<!-- [html-validate-disable-next close-order] --><p id=a><p><b></b>"
    ∃ rules d es, settings.activeRules .standard = .ok rules ∧ (∀ r ∈ rules, r.id ≠ "no-dup-attr") ∧
      (tokenize source).failure = none ∧ parse v source = .ok (d, es) ∧
      observeParsing v Session.observe (start rules) source = (.ok d, (start rules).replay d es) ∧
      ((start rules).replay d es).messages.map Message.rule =
        [some "no-unknown-elements", some "close-order", some "element-required-attributes"] ∧
      ((start rules).replay d es).suppressions.entries.map Suppression.coverage? =
        [some ⟨49, 57⟩] := by
  intro v settings start source
  have hwatched : ((settings.activeRules .standard).toOption.map fun rules =>
      let session := (observeParsing v Session.observe (start rules) source).2
      (rules.map ActiveRule.id, session.messages.map Message.rule,
        session.suppressions.entries.map Suppression.coverage?)) =
      some (["close-order", "element-required-attributes", "no-unknown-elements"],
        [some "no-unknown-elements", some "close-order", some "element-required-attributes"],
        [some ⟨49, 57⟩]) := by
    decide +kernel
  have hscan : (tokenize source).failure = none := by decide +kernel
  obtain ⟨rules, hrules, hseen⟩ := exists_of_map_toOption hwatched
  simp only [Prod.mk.injEq] at hseen
  obtain ⟨hids, hmessages, hentries⟩ := hseen
  have hdup : ∀ r ∈ rules, r.id ≠ "no-dup-attr" := by
    intro r hr hid
    have hmem := List.mem_map_of_mem (f := ActiveRule.id) hr
    rw [hids, hid] at hmem
    revert hmem
    decide
  obtain ⟨d, es, hparse, hsame⟩ :=
    observeParsing_eq_replay hrules hdup hscan v (.start settings.rules.keys .empty)
  rw [hsame] at hmessages hentries
  exact ⟨rules, d, es, hrules, hdup, hscan, hparse, hsame, hmessages, hentries⟩

/-- Of two attributes `no-dup-attr` finds only the second to be there already; in the finished
document both are. -/
example :
    let start : Session := .start ⟨.empty⟩ [⟨"no-dup-attr", .error, .noDupAttr⟩] (.start [] .empty)
    (observeParsing ⟨.empty⟩ Session.observe start "<p a a>").2.messages.length = 1 ∧
      ((parse ⟨.empty⟩ "<p a a>").toOption.map fun (d, es) => (start.replay d es).messages.length) =
        some 2 := by
  decide +kernel

end HtmlLint
