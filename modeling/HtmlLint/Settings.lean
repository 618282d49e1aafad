import HtmlLint.Element.Vocabulary
import HtmlLint.Rule.Standard

/-! # Settings

Settings say how severe each rule is, with which options it runs, and what is known about elements
beyond those of HTML. -/

namespace HtmlLint

/-- How a rule is configured. -/
structure RuleSetting where
  severity : Severity
  options : Option Toml.Table := none
  deriving Inhabited

/-- How sources are to be checked. -/
structure Settings where
  rules : NameMap RuleSetting
  elements : Definitions
  deriving Inhabited

/-- Why there are no settings, or why nothing can be checked with them. -/
inductive SettingsError where
  /-- the text of this configuration cannot be read -/
  | invalidFile (source : String)
  | unknownPreset (name : String)
  /-- `value` is how the severity is written -/
  | invalidSeverity (rule value : String)
  /-- the options of a rule are not a table but of this kind -/
  | optionsNotTable (rule found : String)
  /-- the options of a rule do not fit the rule -/
  | invalidOptions (rule : String)
  | invalidOverride (text : String)
  | inheritance (error : InheritanceError)
  deriving DecidableEq, Inhabited

namespace SettingsError

/-- The place of a rule's options in a configuration. -/
def optionsPath (rule : String) : String :=
  "rules." ++ rule ++ "[1]"

/-- The wording of an error. -/
def message : SettingsError → String
  | invalidFile source => "invalid configuration in " ++ source ++ ": it cannot be read"
  | unknownPreset name => "unknown preset '" ++ name ++ "', expected 'recommended' or 'none'"
  | invalidSeverity rule value => "rule '" ++ rule ++ "': invalid severity " ++ value
  | optionsNotTable rule found =>
    "rule '" ++ rule ++ "': invalid options at " ++ optionsPath rule ++ ": expected a table, found "
      ++ found
  | invalidOptions rule =>
    "rule '" ++ rule ++ "': invalid options at " ++ optionsPath rule ++ ": they do not fit the rule"
  | invalidOverride text => "invalid rule override '" ++ text ++ "', expected <rule>=<severity>"
  | inheritance error => error.message

end SettingsError

namespace Settings

/-- No rules and no elements beyond those of HTML. -/
def empty : Settings :=
  ⟨.empty, .empty⟩

/-- The rules of the recommended preset. -/
def recommendedRules : NameMap RuleSetting :=
  NameMap.ofList (recommendedSeverities.map fun e => (e.1, { severity := e.2 }))

/-- All standard rules with the severities recommended for them. -/
def recommended : Settings :=
  ⟨recommendedRules, .empty⟩

/-- The rules of a preset. -/
def presetRules (name : String) : Except SettingsError (NameMap RuleSetting) :=
  match name with
  | "recommended" => .ok recommendedRules
  | "none" => .ok .empty
  | _ => .error (.unknownPreset name)

/-- Configure a rule anew. -/
def withRule (s : Settings) (id : String) (setting : RuleSetting) : Settings :=
  { s with rules := s.rules.insert id setting }

/-- Define an element. -/
def withElement (s : Settings) (tag : String) (d : ElementDefinition) : Settings :=
  { s with elements := s.elements.insert tag d }

/-- The severity of a rule; a rule that is not configured is off. -/
def severityOf (s : Settings) (id : String) : Severity :=
  ((s.rules.get? id).map RuleSetting.severity).getD .off

/-- Change the severity of a rule, written as `rule=severity`, and keep its options. -/
def override (s : Settings) (text : String) : Except SettingsError Settings :=
  match text.toList.dropWhile (· != '=') with
  | [] => .error (.invalidOverride text)
  | _ :: value =>
    let id := String.ofList (Text.trim (text.toList.takeWhile (· != '=')))
    let value := String.ofList value
    if id.isEmpty then .error (.invalidOverride text)
    else
      match Severity.ofString? value with
      | none => .error (.invalidSeverity id value)
      | some severity => .ok (s.withRule id ⟨severity, (s.rules.get? id).bind RuleSetting.options⟩)

/-- The rules that run: those that are not off, in the order of their names. -/
def activeRules (s : Settings) (registry : Registry) : Except SettingsError (List ActiveRule) :=
  (s.rules.entries.filter fun e => e.2.severity.isEnabled).mapM fun (id, setting) =>
    match registry.get? id with
    | none => .ok ⟨id, setting.severity, Rule.undefined id⟩
    | some make =>
      match make setting.options with
      | none => .error (.invalidOptions id)
      | some rule => .ok ⟨id, setting.severity, rule⟩

end Settings

end HtmlLint
