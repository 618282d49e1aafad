import HtmlLint.Document.Parsing
import HtmlLint.Element.Html
import HtmlLint.Report
import HtmlLint.Session
import HtmlLint.Settings

/-! # Checking sources

A linter is made from settings once and then checks any number of sources, each by itself. -/

namespace HtmlLint

/-- All that is needed to check sources. -/
structure Linter where
  vocabulary : Vocabulary
  /-- the rules that run -/
  rules : List ActiveRule
  /-- the rules that directives may name -/
  configured : List String
  locate : Locator
  deriving Inhabited

namespace Linter

/-- The linter of some settings and rules.  Element definitions are looked at before rules. -/
def ofSettings (registry : Registry) (s : Settings) : Except SettingsError Linter := do
  let vocabulary ← (Vocabulary.htmlWith s.elements).mapError .inheritance
  let rules ← s.activeRules registry
  return ⟨vocabulary, rules, s.rules.keys, Document.selector?⟩

/-- The severities of the rules that run. -/
def enabled (l : Linter) : NameMap Severity :=
  NameMap.ofList (l.rules.map fun r => (r.id, r.severity))

/-- The session in which a source is checked. -/
def session (l : Linter) : Session :=
  .start l.vocabulary l.rules (.start l.configured l.enabled)

/-- Watch the making of a source's document, up to its end or to the fault that stops it. -/
def watch (l : Linter) (source : String) : Except ScanError Document × Session :=
  observeParsing l.vocabulary Session.observe l.session source

/-- The message about a source that cannot be cut into tokens. -/
def faultMessage (e : ScanError) : Message :=
  { rule := none, severity := .error, text := e.fault.message, location := e.location }

/-- Check a source.  A source that cannot be cut into tokens gets one message, which says why. -/
def check (l : Linter) (file source : String) : DocumentReport :=
  match l.watch source with
  | (.ok d, session) => .ofMessages file (some d) l.locate session.resolve
  | (.error e, _) => .ofMessages file none l.locate [faultMessage e]

end Linter

end HtmlLint
