import HtmlLint.Element.Vocabulary
import HtmlLint.Message
import HtmlLint.Suppression
import HtmlLint.Toml.Value

/-! # Rules

A rule looks at the moments of the kinds it subscribes to and says what it finds.  It may also look
back at the events before that moment, and keeps no state of its own.  It says nothing about its own
name and severity: they are those that it is configured with. -/

namespace HtmlLint

/-- What a rule has to say at a moment.  Its message always bears the name and the severity that the
rule is configured with; a rule cannot choose others for a single finding. -/
structure Finding where
  node : Option NodeId
  text : String
  /-- the place, where it is neither that of the event nor that of the node -/
  location : Option Location := none
  context : Option Json := none
  deriving Inhabited

/-- A way of looking at the making of a document.  The rule does not know the name and the severity
that it is configured with, and its findings cannot set them: see `ActiveRule.message`. -/
structure Rule where
  /-- the kinds of events that the rule gets, each as often as it is listed -/
  subscriptions : List EventKind
  /-- what the rule finds at a moment, given the events before it, the latest first -/
  findings : Vocabulary → List Event → Moment → List Finding
  deriving Inhabited

/-- The subscriptions to this kind of event: a rule gets the event once for each of them. -/
def Rule.subscriptionsTo (r : Rule) (kind : EventKind) : List EventKind :=
  r.subscriptions.filter (· == kind)

/-- A rule under the name and with the severity that it is configured with. -/
structure ActiveRule where
  id : String
  severity : Severity
  rule : Rule
  deriving Inhabited

/-- The place of a finding: its own, or that of the event, or that of the node, or the start of the
source. -/
def Finding.place (f : Finding) (m : Moment) : Location :=
  match f.location, m.event.location?, f.node.bind m.document.get? with
  | some l, _, _ => l
  | none, some l, _ => l
  | none, none, some n => n.location
  | none, none, none => { m.document.root.location with size := 0 }

/-- The message of a finding, under the configured name and with the configured severity. -/
def ActiveRule.message (r : ActiveRule) (m : Moment) (f : Finding) : Message :=
  { rule := some r.id, severity := r.severity, text := f.text, location := f.place m,
    node := f.node, context := f.context }

/-- The messages of a rule at a moment: its findings, again for every time that it gets the
event. -/
def ActiveRule.messages (r : ActiveRule) (v : Vocabulary) (history : List Event) (m : Moment) :
    List Message :=
  (r.rule.subscriptionsTo m.event.kind).flatMap fun _ =>
    (r.rule.findings v history m).map (r.message m)

/-- What a rule says are its findings at events that it subscribes to. -/
theorem ActiveRule.of_mem_messages {r : ActiveRule} {v : Vocabulary} {history : List Event}
    {m : Moment} {message : Message} (h : message ∈ r.messages v history m) :
    m.event.kind ∈ r.rule.subscriptions ∧
    ∃ f ∈ r.rule.findings v history m, message = r.message m f := by
  obtain ⟨kind, hkind, hmem⟩ := List.mem_flatMap.mp h
  obtain ⟨hsubscribed, heq⟩ := List.mem_filter.mp hkind
  obtain ⟨f, hf, rfl⟩ := List.mem_map.mp hmem
  exact ⟨eq_of_beq heq ▸ hsubscribed, f, hf, rfl⟩

/-- A rule that does not subscribe to the event has nothing to say. -/
theorem ActiveRule.messages_eq_nil {r : ActiveRule} {m : Moment}
    (h : m.event.kind ∉ r.rule.subscriptions) (v : Vocabulary) (history : List Event) :
    r.messages v history m = [] := by
  have hnone : r.rule.subscriptionsTo m.event.kind = [] :=
    List.filter_eq_nil_iff.mpr fun kind hkind heq => h (eq_of_beq heq ▸ hkind)
  rw [messages, hnone]
  rfl

/-- Makes a rule from its options; there is none if the options do not fit. -/
abbrev RuleMaker := Option Toml.Table → Option Rule

/-- The rules there are, by name. -/
abbrev Registry := NameMap RuleMaker

/-- The rule that stands for a configured name without a rule. -/
def Rule.undefined (id : String) : Rule where
  subscriptions := [.domReady]
  findings _ _ _ := [{ node := none, text := "Definition for rule '" ++ id ++ "' was not found" }]

end HtmlLint
