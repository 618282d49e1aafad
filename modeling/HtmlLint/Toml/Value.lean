import HtmlLint.NameMap

/-! # Configuration values

The values that a configuration file can hold.  A table keeps its entries in ascending order of
their keys. -/

namespace HtmlLint.Toml

/-- A value of a configuration file. -/
inductive Value where
  | string (s : String)
  | integer (n : Int)
  | float (x : Float)
  | boolean (b : Bool)
  /-- a date, a time or both, in their usual spelling -/
  | datetime (text : String)
  | array (items : List Value)
  | table (entries : List (String × Value))
  deriving Inhabited

/-- A table by itself. -/
abbrev Table := NameMap Value

/-- The key under which a date stands where a table is wanted. -/
def dateKey : String := "$__toml_private_datetime"

namespace Value

/-- What kind of value it is. -/
def typeName : Value → String
  | string _ => "string"
  | integer _ => "integer"
  | float _ => "float"
  | boolean _ => "boolean"
  | datetime _ => "datetime"
  | array _ => "array"
  | table _ => "table"

/-- The text of a string. -/
def string? : Value → Option String
  | string s => some s
  | _ => none

/-- The text of a string or of a date. -/
def text? : Value → Option String
  | string s => some s
  | datetime text => some text
  | _ => none

/-- The truth value of a boolean. -/
def boolean? : Value → Option Bool
  | boolean b => some b
  | _ => none

/-- An integer that is not negative. -/
def natural? : Value → Option Nat
  | integer n => if 0 ≤ n then some n.toNat else none
  | _ => none

/-- The items of an array. -/
def array? : Value → Option (List Value)
  | array items => some items
  | _ => none

/-- The entries of a table.  A date is as good as a table with one entry. -/
def table? : Value → Option Table
  | table entries => some (.ofList entries)
  | datetime text => some (.ofList [(dateKey, string text)])
  | _ => none

/-- The texts of an array of strings. -/
def strings? (v : Value) : Option (List String) :=
  v.array?.bind fun items => items.mapM string?

end Value

/-- Read the fields of a table: `read` takes what it has so far, a key and its value, and refuses
the keys it does not know and the values that do not fit. -/
def readFields {α : Type} (read : α → String → Value → Option α) (initial : α) (table : Table) :
    Option α :=
  table.entries.foldlM (fun a e => read a e.1 e.2) initial

end HtmlLint.Toml
