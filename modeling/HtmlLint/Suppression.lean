import HtmlLint.Document.Event
import HtmlLint.Message
import HtmlLint.NameMap

/-! # Suppressions

A directive that disables rules makes a suppression for each of them.  A suppression watches the
making of the document until it is known which bytes it reaches: up to a directive that enables the
rule again, up to the end of the element around it, or over the next element.  When the document is
complete, messages inside the reach of a suppression are taken away, and suppressions that took
nothing away are reported. -/

namespace HtmlLint

/-- The rule that reports suppressions without effect. -/
def noUnusedDisable : String := "no-unused-disable"

/-- What is known about the bytes that a suppression reaches. -/
inductive Reach where
  /-- from here to the directive that enables the rule again -/
  | untilEnabled (start : Nat)
  /-- from here to the end of this element -/
  | untilClosed (parent : NodeId) (start : Nat)
  /-- over the next element in this one, which has not come yet -/
  | beforeNext (parent : NodeId)
  /-- over this element, which is not complete yet -/
  | during (node : NodeId)
  /-- these bytes, or none -/
  | settled (range : Option ByteRange)
  deriving DecidableEq, Inhabited

/-- A rule, or all rules, disabled by one directive. -/
structure Suppression where
  /-- the rule; none if the directive names none and so means all -/
  rule : Option String
  action : DirectiveAction
  /-- where the rule is named, or the directive -/
  location : Location
  reach : Reach
  /-- it took a message away -/
  matched : Bool := false
  deriving DecidableEq, Inhabited

namespace Suppression

/-- The bytes that the suppression reaches, as far as they are known. -/
def coverage? (s : Suppression) : Option ByteRange :=
  match s.reach with
  | .settled range => range
  | _ => none

/-- The suppression is about a rule. -/
def appliesTo (s : Suppression) (rule : String) : Bool :=
  s.rule.all (· == rule)

/-- The suppression reaches an offset. -/
def covers (s : Suppression) (offset : Nat) : Bool :=
  s.coverage?.any (·.contains offset)

/-- A directive that enables these rules, or all rules if it names none, ends this suppression. -/
def isEndedBy (s : Suppression) (rules : List DirectiveRule) : Bool :=
  rules.isEmpty || s.rule.any fun r => rules.any (·.id == r)

/-- What the suppression learns about its reach from one moment. -/
def observeReach (s : Suppression) (m : Moment) : Reach :=
  match m.event, s.reach with
  | .directive .enable rules _ location, .untilEnabled start =>
    if s.isEndedBy rules then .settled (some ⟨start, location.offset⟩) else s.reach
  | .tagOpen target _, .beforeNext parent =>
    if (m.document.get? target).bind Node.parent = some parent then .during target else s.reach
  | .tagClose target (some next) .implicit _, .beforeNext parent =>
    if target = parent then .during next else s.reach
  | .elementReady target _, .during node =>
    if target = node then .settled (m.document.range? node) else s.reach
  | .elementReady target _, .beforeNext parent =>
    if target = parent then .settled none else s.reach
  | .elementReady target _, .untilClosed parent start =>
    if target = parent then
      .settled (((m.document.get? target).bind Node.endOffset).map fun stop =>
        ⟨start, max stop start⟩)
    else s.reach
  | .domReady, .untilEnabled start => .settled (some ⟨start, m.document.sourceLength⟩)
  | .domReady, .untilClosed _ start => .settled (some ⟨start, m.document.sourceLength⟩)
  | .domReady, .beforeNext _ => .settled none
  | .domReady, .during _ => .settled none
  | _, _ => s.reach

/-- The suppression after one moment. -/
def observe (s : Suppression) (m : Moment) : Suppression :=
  { s with reach := s.observeReach m }

/-- The reach that a directive begins with; a directive that enables rules begins none. -/
def firstReach? (action : DirectiveAction) (parent : NodeId) (location : Location) : Option Reach :=
  match action with
  | .enable => none
  | .disable => some (.untilEnabled location.stop)
  | .disableBlock => some (.untilClosed parent location.stop)
  | .disableNext => some (.beforeNext parent)

end Suppression

/-- The suppressions of a document and what is wrong with its directives. -/
structure Suppressions where
  /-- the rules that directives may name -/
  configured : List String
  /-- the rules that run, with their severities -/
  enabled : NameMap Severity
  entries : List Suppression
  complaints : List Message
  deriving Inhabited

namespace Suppressions

/-- Before the document begins there are none. -/
def start (configured : List String) (enabled : NameMap Severity) : Suppressions :=
  ⟨configured, enabled, [], []⟩

/-- The complaint about a directive that names a rule that is not configured. -/
def unknownRule (r : DirectiveRule) : Message :=
  { rule := none, severity := .error, location := r.location
    text := "Directive references unknown rule \"" ++ r.id ++ "\"" }

/-- The suppressions that an event begins. -/
def begun (configured : List String) : Event → List Suppression
  | .directive action rules parent location =>
    match Suppression.firstReach? action parent location with
    | none => []
    | some reach =>
      if rules.isEmpty then [{ rule := none, action, location, reach }]
      else
        (rules.filter fun r => configured.contains r.id).map fun r =>
          { rule := some r.id, action, location := r.location, reach }
  | _ => []

/-- What is wrong with the directive of an event. -/
def complaintsAbout (configured : List String) : Event → List Message
  | .directive _ rules _ _ => (rules.filter fun r => !configured.contains r.id).map unknownRule
  | .invalidDirective fault location =>
    [{ rule := none, severity := .error, location, text := fault.message }]
  | _ => []

/-- The suppressions after one moment. -/
def observe (s : Suppressions) (m : Moment) : Suppressions :=
  { s with
    entries := s.entries.map (·.observe m) ++ begun s.configured m.event
    complaints := s.complaints ++ complaintsAbout s.configured m.event }

/-- Of two suppressions, found in this order, the one further inside. -/
def inner (best : Option (Nat × ByteRange)) (found : Nat × ByteRange) : Option (Nat × ByteRange) :=
  match best with
  | none => some found
  | some b => if b.2.yieldsTo found.2 then some found else some b

/-- The place of the innermost suppression of a rule at an offset; of equal ones the last. -/
def innermost? (entries : List Suppression) (rule : String) (offset : Nat) : Option Nat :=
  let reaching := entries.zipIdx.filterMap fun (s, i) =>
    if s.appliesTo rule && s.covers offset then s.coverage?.map (i, ·) else none
  (reaching.foldl inner none).map Prod.fst

/-- Note that the suppression at a place took a message away. -/
def mark (entries : List Suppression) (i : Nat) : List Suppression :=
  entries.modify i fun s => { s with matched := true }

/-- Take away the messages that suppressions reach, and note which suppressions did so. -/
def suppress (entries : List Suppression) : List Message → List Suppression × List Message
  | [] => (entries, [])
  | m :: ms =>
    match m.rule.bind fun rule => innermost? entries rule m.location.offset with
    | some i => suppress (mark entries i) ms
    | none =>
      let later := suppress entries ms
      (later.1, m :: later.2)

/-- The suppressions of a rule that cross an earlier one of the same rule. -/
def overlaps (entries : List Suppression) : List Message :=
  entries.zipIdx.filterMap fun (later, i) =>
    match later.rule, later.coverage? with
    | some rule, some b =>
      if (entries.take i).any fun earlier =>
          earlier.rule == some rule && earlier.coverage?.any (·.crosses b) then
        some { rule := none, severity := .warning, location := later.location
               text := "Directive for \"" ++ rule ++ "\" partially overlaps a previous directive" }
      else none
    | _, _ => none

/-- The places of the suppressions that took nothing away and whose rule runs; those of
`no-unused-disable` come last, because reporting the others may need them. -/
def unusedPlaces (enabled : NameMap Severity) (entries : List Suppression) : List Nat :=
  let unused := entries.zipIdx.filter fun (s, _) => !s.matched && s.rule.any enabled.contains
  let isLast (e : Suppression × Nat) : Bool := e.1.rule == some noUnusedDisable
  (unused.filter (!isLast ·) ++ unused.filter isLast).map Prod.snd

/-- The report on a suppression that took nothing away. -/
def unusedReport (severity : Severity) (s : Suppression) : Message :=
  { rule := some noUnusedDisable, severity, location := s.location
    text := "\"" ++ s.rule.getD "" ++ "\" rule is disabled but no error was reported" }

/-- Report the suppressions at these places, unless a report is itself suppressed. -/
def reportUnused (severity : Severity) (entries : List Suppression) : List Nat → List Message
  | [] => []
  | i :: rest =>
    match entries[i]? with
    | none => reportUnused severity entries rest
    | some s =>
      if s.matched then reportUnused severity entries rest
      else
        match innermost? entries noUnusedDisable s.location.offset with
        | some j => reportUnused severity (mark entries j) rest
        | none => unusedReport severity s :: reportUnused severity entries rest

/-- The reports on suppressions that took nothing away, if the rule for them runs. -/
def unused (enabled : NameMap Severity) (entries : List Suppression) : List Message :=
  match enabled.get? noUnusedDisable with
  | none => []
  | some severity => reportUnused severity entries (unusedPlaces enabled entries)

/-- The messages that remain, and what is to be said about the directives. -/
def resolve (s : Suppressions) (messages : List Message) : List Message :=
  let (entries, visible) := suppress s.entries messages
  visible ++ s.complaints ++ overlaps entries ++ unused s.enabled entries

end Suppressions

end HtmlLint
