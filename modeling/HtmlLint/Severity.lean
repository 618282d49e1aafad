import HtmlLint.Text.Blank
import HtmlLint.Text.Case

/-! # Severities

A rule is off, or its messages are warnings, or they are errors.  In a configuration a severity is a
level from zero to two or one of several words. -/

namespace HtmlLint

/-- How much a message of a rule matters. -/
inductive Severity where
  | off
  | warning
  | error
  deriving DecidableEq, Inhabited

namespace Severity

/-- The level of a severity. -/
def level : Severity → Nat
  | off => 0
  | warning => 1
  | error => 2

/-- The severity of a level. -/
def ofLevel? : Int → Option Severity
  | 0 => some off
  | 1 => some warning
  | 2 => some error
  | _ => none

/-- A severity is read back from its level. -/
theorem ofLevel?_level (s : Severity) : ofLevel? s.level = some s := by
  cases s <;> rfl

/-- The word for a severity in a listing. -/
def name : Severity → String
  | off => "off"
  | warning => "warning"
  | error => "error"

/-- Rules of this severity run. -/
def isEnabled (s : Severity) : Bool :=
  s != off

/-- The words and levels that name a severity. -/
def words : List (String × Severity) :=
  [("off", off), ("disabled", off), ("0", off), ("warn", warning), ("warning", warning),
    ("1", warning), ("error", error), ("2", error)]

/-- A severity word without surrounding blanks and in small letters. -/
def normalize (s : String) : String :=
  Text.foldCase (Text.trimString s)

/-- The severity that a text names, whatever its case and surrounding blanks. -/
def ofString? (s : String) : Option Severity :=
  words.lookup (normalize s)

/-- What is said about a text that names no severity. -/
def complaint (s : String) : String :=
  "invalid severity '" ++ normalize s ++ "', expected off, warn, error or 0-2"

end Severity

end HtmlLint
