import HtmlLint.Linter
import HtmlLint.Proofs.Construction.Attributes
import HtmlLint.Rule.Standard

/-!
# Attributes given more than once are reported

The rule against duplicate attributes looks at an element at the moment when the element is given an
attribute.  What the element has then is what is kept of the attributes given before
(`Stage.Keeps.attributes_node`), so the rule finds something exactly if one of the same name was
given before: `reportsOn_eq`.

`watch_attributes` puts this together with what an element keeps and with what its start tag tells.
-/

namespace HtmlLint

open Event (attributesOf attributesOf_eq_nil)

/-! ## The messages of one rule -/

namespace ActiveRule

/-- All that a rule says, it says under its name. -/
private theorem rule_of_mem_messages {r : ActiveRule} {v : Vocabulary} {history : List Event}
    {m : Moment} {message : Message} (h : message ∈ r.messages v history m) :
    message.rule = some r.id := by
  obtain ⟨-, f, -, rfl⟩ := of_mem_messages h
  rfl

/-- What some rules say under a name is what those rules say that have this name. -/
private theorem filter_rule_flatMap_messages (id : String) (rules : List ActiveRule)
    (v : Vocabulary) (history : List Event) (m : Moment) :
    (rules.flatMap fun r => r.messages v history m).filter
      (fun message => message.rule == some id) =
      (rules.filter fun r => r.id == id).flatMap fun r => r.messages v history m := by
  induction rules with
  | nil => rfl
  | cons r rules ih =>
    rw [List.flatMap_cons, List.filter_append, ih, List.filter_cons]
    by_cases hr : r.id = id
    · rw [if_pos (beq_iff_eq.mpr hr), List.flatMap_cons, List.filter_eq_self.mpr]
      intro message hmessage
      rw [rule_of_mem_messages hmessage, hr, beq_self_eq_true]
    · rw [if_neg (mt beq_iff_eq.mp hr), List.filter_eq_nil_iff.mpr, List.nil_append]
      intro message hmessage
      rw [rule_of_mem_messages hmessage, beq_iff_eq, Option.some.injEq]
      exact hr

end ActiveRule

namespace Session

/-- A session remembers all events, the last one first. -/
private theorem history_foldl (s : Session) (ms : List Moment) :
    (ms.foldl observe s).history = (ms.map Moment.event).reverse ++ s.history := by
  induction ms generalizing s with
  | nil => rfl
  | cons m ms ih =>
    rw [List.foldl_cons, ih, List.map_cons, List.reverse_cons, List.append_assoc]
    rfl

/-- If one rule has a name and does not look back at earlier events, then the messages of this name
are what the rule says at one moment after the other. -/
private theorem filter_rule_messages_foldl {s : Session} {r : ActiveRule}
    (hr : (s.rules.filter fun o => o.id == r.id) = [r])
    (hfree : ∀ v history m, r.rule.findings v history m = r.rule.findings v [] m)
    (ms : List Moment) :
    (ms.foldl observe s).messages.filter (fun message => message.rule == some r.id) =
      s.messages.filter (fun message => message.rule == some r.id) ++ ms.flatMap
        (r.messages s.vocabulary []) := by
  induction ms generalizing s with
  | nil => simp
  | cons m ms ih =>
    -- of the messages of one moment the filter keeps those of the one rule with this name
    have hobserve : (s.observe m).messages.filter (fun message => message.rule == some r.id) =
        s.messages.filter (fun message => message.rule == some r.id) ++ r.messages
          s.vocabulary [] m := by
      have hmessages : r.messages s.vocabulary s.history m = r.messages s.vocabulary [] m := by
        simp only [ActiveRule.messages, hfree _ s.history]
      simp only [observe, List.filter_append, ActiveRule.filter_rule_flatMap_messages, hr,
        List.flatMap_singleton, hmessages]
    have hlater := ih (s := s.observe m) hr
    rw [List.foldl_cons, hlater, hobserve, List.append_assoc]
    rfl

end Session

/-! ## Duplicate attributes -/

/-- What the rule against duplicate attributes says of an attribute that an element is given
again. -/
def ActiveRule.duplicate (r : ActiveRule) (id : NodeId) (a : Attribute) : Message :=
  { rule := some r.id, severity := r.severity,
    text := "Attribute \"" ++ Text.foldCase a.key ++ "\" duplicated",
    location := a.location, node := some id }

/-- What a rule says on a node at one moment after the other. -/
def ActiveRule.reportsOn (r : ActiveRule) (v : Vocabulary) (id : NodeId) (ms : List Moment) :
    List Message :=
  (ms.flatMap (r.messages v [])).filter fun message => message.node == some id

section Duplicates

variable {r : ActiveRule} {v : Vocabulary}

/-- What a rule says about a node is said moment by moment. -/
private theorem ActiveRule.reportsOn_append (id : NodeId) (ms ms' : List Moment) :
    r.reportsOn v id (ms ++ ms') = r.reportsOn v id ms ++ r.reportsOn v id ms' := by
  rw [reportsOn, List.flatMap_append, List.filter_append]
  rfl

/-- Without an attribute there is nothing to say. -/
private theorem ActiveRule.reportsOn_quiet (hr : r.rule = .noDupAttr) (id : NodeId)
    {ms : List Moment} (h : ∀ m ∈ ms, m.event.kind ≠ .attr) : r.reportsOn v id ms = [] := by
  have hsilent : ms.flatMap (r.messages v []) = [] := by
    rw [List.flatMap_eq_nil_iff]
    intro m hm
    have hkind : m.event.kind ∉ r.rule.subscriptions := by
      simp [hr, Rule.noDupAttr, h m hm]
    exact ActiveRule.messages_eq_nil hkind v []
  rw [reportsOn, hsilent]
  rfl

/-- Where an attribute is given, the rule looks at those that the element has. -/
private theorem ActiveRule.reportsOn_attr (hr : r.rule = .noDupAttr) (id target : NodeId)
    (a : Attribute) (d : Document) :
    r.reportsOn v id [⟨.attr target a, d⟩] =
      if target = id ∧ a.name ∈ (d.node target).attributes.map Attribute.name then
          [r.duplicate id a] else [] := by
  have hmessages : r.messages v [] ⟨.attr target a, d⟩ =
      if (d.node target).hasAttribute a.key then [r.duplicate target a] else [] := by
    have honce : Rule.noDupAttr.subscriptionsTo .attr = [.attr] := rfl
    rw [ActiveRule.messages, hr, Event.kind, honce, List.flatMap_singleton]
    simp only [Rule.noDupAttr]
    split <;> rfl
  rw [reportsOn, List.flatMap_singleton, hmessages]
  simp only [Node.hasAttribute_iff]
  by_cases ha : a.name ∈ (d.node target).attributes.map Attribute.name
  · by_cases hid : target = id
    · subst hid
      simp [ha, duplicate]
    · simp [ha, hid, duplicate]
  · simp [ha]

/-- At every stage the rule has said something on each node exactly for the attributes given to it
again. -/
theorem Run.reportsOn_eq (hr : r.rule = .noDupAttr) {s t : Stage} {ms before : List Moment}
    (hrun : Run s ms t) (hs : s.Sound) (hkeeps : s.Keeps before) {id : NodeId}
    (h : r.reportsOn v id before =
      (Attribute.repeated (attributesOf id (before.map Moment.event))).map (r.duplicate id)) :
    r.reportsOn v id (before ++ ms) =
      (Attribute.repeated (attributesOf id ((before ++ ms).map Moment.event))).map
        (r.duplicate id) := by
  refine (hrun.invariant (P := fun ms s => s.Sound ∧ s.Keeps ms ∧ r.reportsOn v id ms =
    (Attribute.repeated (attributesOf id (ms.map Moment.event))).map (r.duplicate id)) ?_ before
      ⟨hs, hkeeps, h⟩).2.2
  intro before ms s t hm ⟨hs, hkeeps, h⟩
  refine ⟨hs.move hm, hkeeps.move hm hs, ?_⟩
  rw [ActiveRule.reportsOn_append, h, List.map_append, Event.attributesOf_append]
  -- a move gives an attribute or it does not, and only then does the rule speak
  obtain hquiet | ⟨target, a, rfl, htarget, -⟩ := hm.quiet_or_attr hs
  · rw [ActiveRule.reportsOn_quiet hr id hquiet,
      attributesOf_eq_nil id (List.forall_mem_map.mpr hquiet), List.append_nil, List.append_nil]
  · rw [ActiveRule.reportsOn_attr hr, hkeeps.attributes_node htarget, List.map_singleton,
      Event.attributesOf_attr]
    by_cases hid : target = id
    · subst hid
      simp only [true_and, if_true, Attribute.repeated_concat, List.map_append]
      split <;> rfl
    · simp [hid]

/-- So it is in the end. -/
private theorem Construction.record_reportsOn (hr : r.rule = .noDupAttr) (ts : List Token)
    (length : Nat) (id : NodeId) :
    r.reportsOn v id (record v ts length).2 =
      (Attribute.repeated (attributesOf id ((record v ts length).2.map Moment.event))).map
        (r.duplicate id) := by
  obtain ⟨ms, d, hrun, hrecord⟩ := record_run v ts length
  have hmoments : (record v ts length).2 =
      [⟨.domLoad, .ofLength length⟩] ++ ms ++ [⟨.domReady, d.ended⟩] := by
    rw [hrecord]
    rfl
  have hreports : r.reportsOn v id ms =
      (Attribute.repeated (attributesOf id (ms.map Moment.event))).map (r.duplicate id) :=
    hrun.reportsOn_eq hr (.ofLength length) (.ofLength length) rfl
  rw [hmoments, ActiveRule.reportsOn_append, ActiveRule.reportsOn_append, hreports,
    ActiveRule.reportsOn_quiet hr id (by simp [Event.kind]),
    ActiveRule.reportsOn_quiet hr id (by simp [Event.kind]),
    List.map_append, List.map_append]
  simp only [List.map_singleton, Event.attributesOf_document, List.nil_append, List.append_nil]

end Duplicates

/-! ## Sources -/

/-- A source that can be cut into tokens is watched up to its end, and every element of its document
has, of the attributes that it was given, the last one of each name, in the order of the first
ones.  It was given one for each name that stands in its start tag, with the value that comes right
after the name.  The rule against duplicate attributes reports each of them whose name was given
before: as many as were given, less those that the element has. -/
theorem watch_attributes (l : Linter) {r : ActiveRule}
    (hr : (l.rules.filter fun o => o.id == r.id) = [r]) (hrule : r.rule = .noDupAttr)
    {source : String} (hwhole : (tokenize source).failure = none) :
    ∃ d s, l.watch source = (.ok d, s) ∧ ∀ n ∈ d.elements,
      let given := attributesOf n.id s.history.reverse
      let reports := s.messages.filter fun m => m.node == some n.id && m.rule == some r.id
      Attribute.AreKeptOf given n.attributes ∧
      (∃ before first attributes last after,
        (tokenize source).tokens = before ++ first :: (attributes ++ last :: after) ∧
        Token.IsTag first attributes last ∧
        first.isEndTag = false ∧ .tagOpen n.id first.location ∈ s.history ∧
        given = Token.attributes attributes ∧
        given.map (fun a => (a.key, a.location)) =
          (attributes.filter fun t => t.kind == .attrName).map fun t => (t.text, t.location)) ∧
      reports = (Attribute.repeated given).map (r.duplicate n.id) ∧
      reports.length + n.attributes.length = given.length := by
  let made := Construction.record l.vocabulary (tokenize source).tokens (byteLength source.toList)
  refine ⟨made.1, made.2.foldl Session.observe l.session, observeParsing_eq hwhole _ _ _, ?_⟩
  intro n hn given reports
  have hhistory : (made.2.foldl Session.observe l.session).history =
      (made.2.map Moment.event).reverse := by
    rw [Session.history_foldl]
    exact List.append_nil _
  have hgiven : given = attributesOf n.id (made.2.map Moment.event) := by
    simp only [given, hhistory, List.reverse_reverse]
  -- what the document keeps and what the rule reports are both read off what was given
  have hkept : n.attributes = Attribute.kept given := by
    rw [hgiven]
    exact Construction.record_attributes_eq _ _ _ ((Construction.record_isTree _ _ _).get?_id hn)
  have hreports : reports = (Attribute.repeated given).map (r.duplicate n.id) := by
    have hmessages : (made.2.foldl Session.observe l.session).messages.filter
        (fun m => m.rule == some r.id) = made.2.flatMap (r.messages l.vocabulary []) :=
      Session.filter_rule_messages_foldl (s := l.session) hr
        (fun _ _ _ => by rw [hrule]; rfl) made.2
    rw [hgiven, ← Construction.record_reportsOn hrule, ActiveRule.reportsOn, ← hmessages,
      List.filter_filter]
  refine ⟨?_, ?_, hreports, ?_⟩
  · rw [hkept]
    exact Attribute.areKeptOf_kept given
  · obtain ⟨before, first, attributes, last, after, htokens, htag, hend, hopening, htold⟩ :=
      Construction.exists_startTag_attributesOf l.vocabulary hwhole n hn
    have hgiven' : given = Token.attributes attributes := hgiven.trans htold
    refine ⟨before, first, attributes, last, after, htokens, htag, hend, ?_, hgiven', ?_⟩
    · rw [hhistory, List.mem_reverse]
      exact hopening
    · rw [hgiven', Token.map_key_attributes]
  · rw [hreports, List.length_map, hkept]
    exact Attribute.length_repeated given

/-- A paragraph with three attributes of one name, of which it has the last one in the first place.
The other two are reported. -/
theorem watch_attributes_class :
    let r : ActiveRule := ⟨"no-dup-attr", .error, .noDupAttr⟩
    let l : Linter :=
      ⟨⟨.empty⟩, [⟨"attr-quotes", .error, .attrQuotes {}⟩, r], [], Document.selector?⟩
    let source := "<p CLASS=a id=x class='b' Class></p><b id></b>"
    (tokenize source).failure = none ∧
    ((l.watch source).1.toOption.map fun d => d.elements.map fun n => n.attributes.map fun a =>
      (a.key, a.location.offset)) = some [[("Class", 26), ("id", 11)], [("id", 39)]] ∧
    ((l.watch source).2.messages.filter fun m => m.rule == some r.id).map
      (fun m => (m.node, m.location.offset)) = [(some 1, 16), (some 1, 26)] ∧
    ∃ d s, l.watch source = (.ok d, s) ∧ ∀ n ∈ d.elements,
      let given := attributesOf n.id s.history.reverse
      let reports := s.messages.filter fun m => m.node == some n.id && m.rule == some r.id
      Attribute.AreKeptOf given n.attributes ∧
      reports = (Attribute.repeated given).map (r.duplicate n.id) ∧
      reports.length + n.attributes.length = given.length := by
  intro r l source
  have hwhole : (tokenize source).failure = none := by decide +kernel
  refine ⟨hwhole, by decide +kernel, by decide +kernel, ?_⟩
  obtain ⟨d, s, hwatch, helements⟩ := watch_attributes l (r := r) rfl rfl hwhole
  refine ⟨d, s, hwatch, fun n hn => ?_⟩
  obtain ⟨hkept, -, hreports⟩ := helements n hn
  exact ⟨hkept, hreports⟩

end HtmlLint
