import HtmlLint.NameMap
import HtmlLint.Text.Blank
import HtmlLint.Text.Case
import HtmlLint.Text.Search

/-! # Element definitions

An element is defined by what is written about it, where everything may be left out:
`ElementDefinition`.  A definition can inherit what it leaves out from another one.  `ElementModel`
is what the checks use, with nothing left out. -/

namespace HtmlLint

/-- A description of elements: by tag or by category. -/
inductive Pattern where
  | tag (name : String)
  | category (name : String)
  deriving DecidableEq, Inhabited

namespace Pattern

/-- A category is written with an at sign before its name. -/
def ofString (s : String) : Pattern :=
  match s.toList with
  | '@' :: name => category (String.ofList name)
  | _ => tag s

/-- The pattern as it is written. -/
def spelling : Pattern → String
  | tag name => name
  | category name => "@" ++ name

/-- The pattern as messages name it. -/
def describe : Pattern → String
  | tag name => "<" ++ name ++ ">"
  | category name => "@" ++ name

end Pattern

/-- An entry of a list of permitted elements. -/
inductive Permission where
  | inclusion (pattern : Pattern)
  | exclusion (pattern : Pattern)
  deriving DecidableEq, Inhabited

/-- The pattern of an entry. -/
def Permission.pattern : Permission → Pattern
  | inclusion p => p
  | exclusion p => p

/-- What is known about the deprecation of an element. -/
structure Deprecation where
  message : Option String
  documentation : Option String
  source : Option String
  deriving DecidableEq, Inhabited

/-- How a definition says whether an element is deprecated. -/
inductive DeprecationNote where
  | flag (deprecated : Bool)
  | reason (message : String)
  | detailed (details : Deprecation)
  deriving DecidableEq, Inhabited

/-- The deprecation that a note stands for. -/
def DeprecationNote.deprecation? : DeprecationNote → Option Deprecation
  | flag false => none
  | flag true => some ⟨none, none, none⟩
  | reason message => some ⟨some message, none, none⟩
  | detailed details => some details

/-- What is written about an element. -/
structure ElementDefinition where
  inherits : Option String := none
  categories : Option (List String) := none
  void : Option Bool := none
  foreign : Option Bool := none
  optionalEnd : Option Bool := none
  implicitClosed : Option (List String) := none
  permittedContent : Option (List Permission) := none
  permittedParent : Option (List Permission) := none
  permittedOrder : Option (List String) := none
  permittedOccurrences : Option (NameMap Nat) := none
  requiredContent : Option (List String) := none
  requiredAncestors : Option (List String) := none
  requiredAttributes : Option (List String) := none
  deprecated : Option DeprecationNote := none
  deriving DecidableEq, Inhabited

/-- What the checks know about an element. -/
structure ElementModel where
  tag : String
  /-- in ascending order -/
  categories : List String
  /-- the element has no content and no end tag -/
  void : Bool
  /-- the element begins foreign content -/
  foreign : Bool
  /-- the end tag may be left out -/
  optionalEnd : Bool
  /-- the tags whose start ends the element -/
  implicitClosed : List String
  permittedContent : List Permission
  permittedParent : List Permission
  /-- groups of patterns; children of an earlier group come first -/
  permittedOrder : List (List Pattern)
  /-- how many children may match a pattern, by the pattern's spelling -/
  permittedOccurrences : NameMap Nat
  requiredContent : List Pattern
  requiredAncestors : List Pattern
  requiredAttributes : List String
  deprecated : Option Deprecation
  deriving DecidableEq, Inhabited

namespace ElementDefinition

/-- Take what the definition leaves out from another one. -/
def layeredOn (d base : ElementDefinition) : ElementDefinition where
  inherits := d.inherits
  categories := d.categories.or base.categories
  void := d.void.or base.void
  foreign := d.foreign.or base.foreign
  optionalEnd := d.optionalEnd.or base.optionalEnd
  implicitClosed := d.implicitClosed.or base.implicitClosed
  permittedContent := d.permittedContent.or base.permittedContent
  permittedParent := d.permittedParent.or base.permittedParent
  permittedOrder := d.permittedOrder.or base.permittedOrder
  permittedOccurrences := d.permittedOccurrences.or base.permittedOccurrences
  requiredContent := d.requiredContent.or base.requiredContent
  requiredAncestors := d.requiredAncestors.or base.requiredAncestors
  requiredAttributes := d.requiredAttributes.or base.requiredAttributes
  deprecated := d.deprecated.or base.deprecated

/-- The patterns of a group, which are separated by commas. -/
def orderGroup (s : String) : List Pattern :=
  ((Text.splitOn ',' s.toList).map Text.trim).filterMap fun cs =>
    if cs.isEmpty then none else some (.ofString (String.ofList cs))

/-- What a definition says, with the usual value for what it leaves out. -/
def toModel (d : ElementDefinition) (tag : String) : ElementModel where
  tag := tag
  categories := (NameMap.ofList ((d.categories.getD []).map (·, ()))).keys
  void := d.void.getD false
  foreign := d.foreign.getD false
  optionalEnd := d.optionalEnd.getD false
  implicitClosed := d.implicitClosed.getD []
  permittedContent := d.permittedContent.getD []
  permittedParent := d.permittedParent.getD []
  permittedOrder := (d.permittedOrder.getD []).map orderGroup
  permittedOccurrences := d.permittedOccurrences.getD .empty
  requiredContent := (d.requiredContent.getD []).map .ofString
  requiredAncestors := (d.requiredAncestors.getD []).map .ofString
  requiredAttributes := d.requiredAttributes.getD []
  deprecated := d.deprecated.bind DeprecationNote.deprecation?

end ElementDefinition

namespace ElementModel

/-- The element belongs to a category. -/
def hasCategory (m : ElementModel) (category : String) : Bool :=
  m.categories.contains category

/-- The start of an element with this tag ends the element. -/
def isClosedBy (m : ElementModel) (tag : String) : Bool :=
  m.implicitClosed.any fun closer => Text.sameName closer tag

end ElementModel

end HtmlLint
