import HtmlLint.Element.Decoding
import HtmlLint.Settings
import HtmlLint.Toml.Printer
import HtmlLint.Toml.Reader

/-! # Settings in a configuration file

A configuration may name a preset, give severities and options to rules, and define elements:

    preset = "none"
    [rules]
    close-order = "warn"
    attr-quotes = ["error", { style = "single" }]
    [elements.my-button]
    inherits = "button"
-/

namespace HtmlLint

open Toml (Value Table)

namespace RuleSetting

/-- The severity that a value gives to a rule: a level or a name. -/
def severity? : Value → Option Severity
  | .integer n => Severity.ofLevel? n
  | .string s => Severity.ofString? s
  | _ => none

/-- A level or a name. -/
def namesSeverity : Value → Bool
  | .integer _ => true
  | .string _ => true
  | _ => false

/-- The severity of a rule, or the complaint about the value that should have given it. -/
def readSeverity (rule : String) (v : Value) : Except SettingsError Severity :=
  match severity? v with
  | some s => .ok s
  | none => .error (.invalidSeverity rule v.render)

/-- The setting of a rule: a severity, or an array of a severity and options. -/
def read (rule : String) (v : Value) : Except SettingsError RuleSetting := do
  match v with
  | .array (first :: rest) =>
    if namesSeverity first then
      let severity ← readSeverity rule first
      match rest with
      | [] => return ⟨severity, none⟩
      | [.table entries] => return ⟨severity, some (.ofList entries)⟩
      | .table _ :: _ => throw (.invalidSeverity rule v.render)
      | other :: _ => throw (.optionsNotTable rule other.typeName)
    else throw (.invalidSeverity rule v.render)
  | v => return ⟨← readSeverity rule v, none⟩

end RuleSetting

namespace Settings

/-- What a configuration file says, before its preset and rules are looked at. -/
structure File where
  preset : Option String := none
  rules : Table := .empty
  elements : Definitions := .empty
  deriving Inhabited

/-- Read one key of a configuration file. -/
def File.withKey? (f : File) (key : String) (v : Value) : Option File :=
  match key with
  | "preset" => v.string?.map fun s => { f with preset := some s }
  | "rules" => do
    let entries ← Toml.entriesWithDates? (← v.table?).entries
    return { f with rules := .ofList entries }
  | "elements" => (definitionsOfValue? v).map fun d => { f with elements := d }
  | _ => none

/-- Read a configuration file. -/
def File.read? (text : String) : Option File :=
  (Toml.read? text).bind (Toml.readFields File.withKey? {})

/-- The settings of a configuration file: its preset, with the rules it gives settings to.  The
preset is looked at first, and then the rules in the order of their names. -/
def File.settings (f : File) : Except SettingsError Settings := do
  let preset ← presetRules (f.preset.getD "recommended")
  let rules ← f.rules.entries.foldlM
    (fun rules e => return rules.insert e.1 (← RuleSetting.read e.1 e.2)) preset
  return ⟨rules, f.elements⟩

/-- The settings in the text of a configuration, which goes by the name `source` in complaints. -/
def ofText (source text : String) : Except SettingsError Settings :=
  match File.read? text with
  | none => .error (.invalidFile source)
  | some f => f.settings

end Settings

end HtmlLint
