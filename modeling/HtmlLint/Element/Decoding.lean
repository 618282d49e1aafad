import HtmlLint.Element.Definition
import HtmlLint.Toml.Value

/-! # Element definitions in a configuration

A definition is a table whose keys are the properties of the element.  A key that is no property, or
a value of the wrong kind, makes the table no definition.  The properties may also be given without
their keys, as an array of all of them in their order. -/

namespace HtmlLint

open Toml (Value Table)

/-- An entry of a list of permitted elements: a pattern, or a table that says what to exclude. -/
def Permission.ofValue? : Value → Option Permission
  | .string s => some (.inclusion (.ofString s))
  | .table entries =>
    ((entries.lookup "exclude").bind Value.string?).map fun s => .exclusion (.ofString s)
  | _ => none

/-- A list of permitted elements. -/
def Permission.listOfValue? (v : Value) : Option (List Permission) :=
  v.array?.bind fun items => items.mapM Permission.ofValue?

/-- The text of a key that may be absent; nothing if it is there and no string. -/
def optionalString? (t : Table) (key : String) : Option (Option String) :=
  match t.get? key with
  | none => some none
  | some v => v.string?.map some

/-- A note on deprecation: a flag, a reason, or a table of details. -/
def DeprecationNote.ofValue? : Value → Option DeprecationNote
  | .boolean b => some (.flag b)
  | .string s => some (.reason s)
  | v => do
    let details ← v.table?
    return .detailed
      ⟨← optionalString? details "message", ← optionalString? details "documentation",
      ← optionalString? details "source"⟩

/-- A table of naturals below `2 ^ 64`. -/
def occurrencesOfValue? (v : Value) : Option (NameMap Nat) := do
  let t ← v.table?
  return .ofList (← t.entries.mapM fun e => (e.2.natural?.filter (· < UInt64.size)).map (e.1, ·))

/-- Add one property to a definition. -/
def ElementDefinition.withProperty? (d : ElementDefinition) (key : String) (v : Value) :
    Option ElementDefinition :=
  match key with
  | "inherits" => v.string?.map fun x => { d with inherits := some x }
  | "categories" => v.strings?.map fun x => { d with categories := some x }
  | "void" => v.boolean?.map fun x => { d with void := some x }
  | "foreign" => v.boolean?.map fun x => { d with foreign := some x }
  | "optional_end" => v.boolean?.map fun x => { d with optionalEnd := some x }
  | "implicit_closed" => v.strings?.map fun x => { d with implicitClosed := some x }
  | "permitted_content" =>
    (Permission.listOfValue? v).map fun x => { d with permittedContent := some x }
  | "permitted_parent" =>
    (Permission.listOfValue? v).map fun x => { d with permittedParent := some x }
  | "permitted_order" => v.strings?.map fun x => { d with permittedOrder := some x }
  | "permitted_occurrences" =>
    (occurrencesOfValue? v).map fun x => { d with permittedOccurrences := some x }
  | "required_content" => v.strings?.map fun x => { d with requiredContent := some x }
  | "required_ancestors" => v.strings?.map fun x => { d with requiredAncestors := some x }
  | "required_attributes" => v.strings?.map fun x => { d with requiredAttributes := some x }
  | "deprecated" => (DeprecationNote.ofValue? v).map fun x => { d with deprecated := some x }
  | _ => none

/-- The properties, in the order in which a definition without keys gives them. -/
def ElementDefinition.properties : List String :=
  ["inherits", "categories", "void", "foreign", "optional_end", "implicit_closed",
    "permitted_content",
    "permitted_parent", "permitted_order", "permitted_occurrences", "required_content",
    "required_ancestors", "required_attributes", "deprecated"]

/-- The definition that a table holds, or an array that gives all properties; what follows them in
the array does not matter. -/
def ElementDefinition.ofValue? : Value → Option ElementDefinition
  | .array items =>
    if items.length < properties.length then none
    else (properties.zip items).foldlM (fun d e => d.withProperty? e.1 e.2) {}
  | v => v.table?.bind (Toml.readFields ElementDefinition.withProperty? {})

/-- The definitions that a table holds. -/
def definitionsOfValue? (v : Value) : Option (NameMap ElementDefinition) := do
  let t ← v.table?
  return .ofList (← t.entries.mapM fun e => (ElementDefinition.ofValue? e.2).map (e.1, ·))

end HtmlLint
