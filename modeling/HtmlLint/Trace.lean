import HtmlLint.Document.Parsing
import HtmlLint.Text.Quoted

/-! # Traces

The tokens of a source, the events of building its document and the tree that comes out can be
shown, one a line, to see what the rules get to see. -/

namespace HtmlLint

/-- The name of a kind of token. -/
def TokenKind.label : TokenKind → String
  | tagOpen => "TagOpen"
  | tagClose => "TagClose"
  | attrName => "AttrName"
  | attrValue => "AttrValue"
  | text => "Text"
  | comment => "Comment"
  | doctype => "Doctype"

/-- The name of a kind of quotes. -/
def Quote.label : Quote → String
  | double => "Double"
  | single => "Single"
  | unquoted => "Unquoted"

/-- The name of a way of closing. -/
def CloseKind.label : CloseKind → String
  | explicit => "Explicit"
  | implicit => "Implicit"
  | selfClosed => "SelfClosed"
  | void => "Void"
  | endOfInput => "EndOfInput"

/-- The name of what a directive does. -/
def DirectiveAction.label : DirectiveAction → String
  | enable => "Enable"
  | disable => "Disable"
  | disableBlock => "DisableBlock"
  | disableNext => "DisableNext"

namespace Trace

/-- A name with named fields. -/
def record (name : String) (fields : List (String × String)) : String :=
  name ++ " \x7b " ++ Text.joinWith ", " (fields.map fun f => f.1 ++ ": " ++ f.2) ++ " \x7d"

/-- Something that may be absent. -/
def optional {α : Type} (render : α → String) : Option α → String
  | some a => "Some(" ++ render a ++ ")"
  | none => "None"

/-- A list in brackets. -/
def list (items : List String) : String :=
  "[" ++ Text.joinWith ", " items ++ "]"

/-- A node by its number. -/
def node (id : NodeId) : String :=
  "NodeId(" ++ toString id ++ ")"

/-- A location in a file. -/
def location (file : String) (l : Location) : String :=
  record "Location" [("filename", Text.quoted file), ("offset", toString l.offset),
    ("line", toString l.line), ("column", toString l.column), ("size", toString l.size)]

/-- A structural error. -/
def structuralError : StructuralError → String
  | .strayEndTag tag => record "StrayEndTag" [("tag", Text.quoted tag)]
  | .mismatchedClose expected found =>
    record "MismatchedClose" [("expected", Text.quoted expected), ("found", Text.quoted found)]
  | .unclosedElement tag => record "UnclosedElement" [("tag", Text.quoted tag)]

/-- A rule that a directive names. -/
def directiveRule (file : String) (r : DirectiveRule) : String :=
  record "DirectiveRule" [("id", Text.quoted r.id), ("location", location file r.location)]

/-- The fields of an event. -/
def eventFields (file : String) : Event → List (String × String)
  | .domLoad => []
  | .tagOpen target l => [("target", node target), ("location", location file l)]
  | .tagClose target previous kind l =>
    [("target", node target), ("previous", optional node previous), ("kind", kind.label),
      ("location", location file l)]
  | .elementReady target l => [("target", node target), ("location", location file l)]
  | .attr target a =>
    [("target", node target), ("key", Text.quoted a.key),
      ("value", optional (fun v => Text.quoted v.text) a.value),
      ("quote", optional (fun v => v.quote.label) a.value), ("location", location file a.location),
      ("value_location", optional (fun v => location file v.location) a.value)]
  | .doctype value l => [("value", Text.quoted value), ("location", location file l)]
  | .directive action rules parent l =>
    [("action", action.label), ("rules", list (rules.map (directiveRule file))),
      ("parent", node parent), ("location", location file l)]
  | .invalidDirective fault l =>
    [("message", Text.quoted fault.message), ("location", location file l)]
  | .parseError error target l =>
    [("error", structuralError error), ("target", optional node target),
      ("location", location file l)]
  | .domReady => []

/-- An event on a line. -/
def event (file : String) (e : Event) : String :=
  match eventFields file e with
  | [] => e.kind.name
  | fields => record e.kind.name fields

/-- A token on a line. -/
def token (file : String) (t : Token) : String :=
  t.location.describe file ++ " " ++ t.kind.label ++ " " ++ Text.quoted t.text

/-- A node of the tree on a line. -/
def nodeLine (file : String) (depth : Nat) (n : Node) : String :=
  let indent := String.join (List.replicate depth "  ")
  match n.kind with
  | .root => "(root) " ++ file
  | .text content => indent ++ "#text " ++ Text.quoted content
  | .element =>
    indent ++ n.displayName ++ " " ++ toString n.location.line ++ ":" ++ toString n.location.column
      ++ " " ++ optional CloseKind.label n.closed

/-- The lines of a node and of the nodes below it; `levels` bounds how deep the tree is. -/
def subtree (file : String) (d : Document) : (levels depth : Nat) → NodeId → List String
  | 0, _, _ => []
  | levels + 1, depth, id =>
    match d.get? id with
    | none => []
    | some n => nodeLine file depth n :: n.children.flatMap (subtree file d levels (depth + 1))

/-- The lines of the whole tree. -/
def tree (file : String) (d : Document) : List String :=
  subtree file d d.size 0 rootId

end Trace

end HtmlLint
