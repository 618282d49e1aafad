import HtmlLint.Document.Event

/-! # Directives

A comment such as `<!-- [html-validate-disable no-dup-attr, deprecated: why] -->` is a directive: it
names an action, rules, and after a colon anything a reader should know.  `Directive.ofBody?` reads
the body of a comment, and `Directive.event` tells what a comment token means for the document. -/

namespace HtmlLint

/-- The action of a name. -/
def DirectiveAction.ofName? : String → Option DirectiveAction
  | "enable" => some enable
  | "disable" => some disable
  | "disable-block" => some disableBlock
  | "disable-next" => some disableNext
  | _ => none

/-- The name of an action. -/
def DirectiveAction.name : DirectiveAction → String
  | enable => "enable"
  | disable => "disable"
  | disableBlock => "disable-block"
  | disableNext => "disable-next"

namespace Directive

/-- What every directive begins with. -/
def opening : String := "[html-validate-"

/-- The character may stand in the name of an action. -/
def isActionChar (c : Char) : Bool :=
  c.isAlphanum || c == '-'

/-- A directive's body taken apart. -/
structure Parts where
  /-- the name of the action -/
  action : List Char
  /-- the body up to the list of rules -/
  before : List Char
  /-- the list of rules; empty if the directive has none -/
  rules : List Char
  deriving DecidableEq, Inhabited

/-- After the rules and the remark nothing follows but the closing bracket and blanks. -/
def endsWell (cs : List Char) : Bool :=
  let cs := if Text.startsWith cs ":" then cs.dropWhile (· != ']') else cs
  match cs with
  | ']' :: rest => rest.all Text.isBlank
  | _ => false

/-- Take a body apart, if it has the form of a directive: the opening, an action, a list of rules
after blanks, a remark after a colon, and the closing bracket. -/
def ofBody? (body : List Char) : Option Parts :=
  let lead := body.takeWhile Text.isBlank
  let cs := body.dropWhile Text.isBlank
  if Text.startsWith cs opening then
    let cs := cs.drop opening.length
    let action := cs.takeWhile isActionChar
    let afterAction := cs.dropWhile isActionChar
    let gap := afterAction.takeWhile Text.isBlank
    let afterGap := afterAction.dropWhile Text.isBlank
    let inList (c : Char) : Bool := !gap.isEmpty && c != ']' && c != ':'
    let rules := afterGap.takeWhile inList
    if !action.isEmpty && endsWell (afterGap.dropWhile inList) then
      some ⟨action, lead ++ opening.toList ++ action ++ gap, rules⟩
    else none
  else none

/-- The rules of a list whose first item starts at `p`; the items are separated by commas and may be
blank. -/
def rulesOf (p : Position) : List (List Char) → List DirectiveRule
  | [] => []
  | item :: items =>
    let later := rulesOf (p.advance (item ++ [','])) items
    let id := Text.trim item
    if id.isEmpty then later
    else ⟨String.ofList id, .covering (p.advance (item.takeWhile Text.isBlank)) id⟩ :: later

/-- What stands in a comment before its body, where the body is taken to begin at the first place at
which it can be read. -/
def lead (t : Token) : List Char :=
  (Text.breakAt t.commentBody.isPrefixOf t.text.toList).1

/-- What a comment inside `parent` means: nothing if it does not look like a directive. -/
def event? (t : Token) (parent : NodeId) : Option Event :=
  let body := t.commentBody
  if Text.startsWith (Text.trimStart body) opening then
    match ofBody? body with
    | none => some (.invalidDirective (.malformed (String.ofList (Text.trim body))) t.location)
    | some parts =>
      let name := String.ofList parts.action
      match DirectiveAction.ofName? name with
      | none => some (.invalidDirective (.unknownAction name) t.location)
      | some action =>
        let start := t.location.toPosition.advance (lead t ++ parts.before)
        some (.directive action (rulesOf start (Text.splitOn ',' parts.rules)) parent t.location)
  else none

end Directive

end HtmlLint
