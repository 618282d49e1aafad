import HtmlLint.Document

/-! # Events

Building a document is told as a sequence of events.  Rules and suppressions watch this sequence,
each event together with the document as it was at that moment. -/

namespace HtmlLint

/-- A start tag or an end tag that is missing or misplaced. -/
inductive StructuralError where
  /-- an end tag to which no open element belongs -/
  | strayEndTag (tag : String)
  /-- an end tag that is not the one of the current element -/
  | mismatchedClose (expected found : String)
  /-- an element that is open at the end of the source -/
  | unclosedElement (tag : String)
  deriving DecidableEq, Inhabited

/-- The wording of a structural error. -/
def StructuralError.message : StructuralError → String
  | strayEndTag tag => "Stray end tag '</" ++ tag ++ ">'"
  | mismatchedClose expected found =>
    "Mismatched close-tag, expected '</" ++ expected ++ ">' but found '</" ++ found ++ ">'"
  | unclosedElement tag => "Unclosed element '<" ++ tag ++ ">'"

/-- What a directive does to rules. -/
inductive DirectiveAction where
  | enable
  | disable
  /-- up to the end of the element that the directive stands in -/
  | disableBlock
  /-- for the next element -/
  | disableNext
  deriving DecidableEq, Inhabited

/-- A rule that a directive names. -/
structure DirectiveRule where
  id : String
  location : Location
  deriving DecidableEq, Inhabited

/-- Why a comment that looks like a directive is none. -/
inductive DirectiveFault where
  /-- the body does not have the form of a directive -/
  | malformed (body : String)
  /-- there is no such action -/
  | unknownAction (name : String)
  deriving DecidableEq, Inhabited

/-- The wording of a directive's fault. -/
def DirectiveFault.message : DirectiveFault → String
  | malformed body => "Failed to parse directive \"" ++ body ++ "\""
  | unknownAction name => "Unknown directive \"html-validate-" ++ name ++ "\""

/-- A step in the making of a document. -/
inductive Event where
  /-- it begins -/
  | domLoad
  /-- an element was opened and has its place in the tree -/
  | tagOpen (target : NodeId) (location : Location)
  /-- an element was closed; `previous` is the new element that ended it, if one did -/
  | tagClose (target : NodeId) (previous : Option NodeId) (kind : CloseKind) (location : Location)
  /-- an element and everything in it is complete -/
  | elementReady (target : NodeId) (location : Location)
  /-- an attribute was read and is about to be stored -/
  | attr (target : NodeId) (a : Attribute)
  | doctype (value : String) (location : Location)
  /-- a directive stands inside `parent` -/
  | directive (action : DirectiveAction) (rules : List DirectiveRule) (parent : NodeId)
      (location : Location)
  | invalidDirective (fault : DirectiveFault) (location : Location)
  | parseError (error : StructuralError) (target : Option NodeId) (location : Location)
  /-- the tree is complete -/
  | domReady
  deriving DecidableEq, Inhabited

/-- The kinds of events, to which rules subscribe. -/
inductive EventKind where
  | domLoad
  | tagOpen
  | tagClose
  | elementReady
  | attr
  | doctype
  | directive
  | invalidDirective
  | parseError
  | domReady
  deriving DecidableEq, Inhabited

/-- The name of a kind of event. -/
def EventKind.name : EventKind → String
  | domLoad => "DomLoad"
  | tagOpen => "TagOpen"
  | tagClose => "TagClose"
  | elementReady => "ElementReady"
  | attr => "Attr"
  | doctype => "Doctype"
  | directive => "Directive"
  | invalidDirective => "InvalidDirective"
  | parseError => "ParseError"
  | domReady => "DomReady"

/-- All kinds of events, in the order in which they are listed. -/
def EventKind.all : List EventKind :=
  [domLoad, tagOpen, tagClose, elementReady, attr, doctype, directive, invalidDirective, parseError,
    domReady]

namespace Event

/-- The kind of an event. -/
def kind : Event → EventKind
  | domLoad => .domLoad
  | tagOpen .. => .tagOpen
  | tagClose .. => .tagClose
  | elementReady .. => .elementReady
  | attr .. => .attr
  | doctype .. => .doctype
  | directive .. => .directive
  | invalidDirective .. => .invalidDirective
  | parseError .. => .parseError
  | domReady => .domReady

/-- The place that an event is about. -/
def location? : Event → Option Location
  | domLoad => none
  | tagOpen _ l => some l
  | tagClose _ _ _ l => some l
  | elementReady _ l => some l
  | attr _ a => some a.location
  | doctype _ l => some l
  | directive _ _ _ l => some l
  | invalidDirective _ l => some l
  | parseError _ _ l => some l
  | domReady => none

/-- The node that an event is about. -/
def target? : Event → Option NodeId
  | tagOpen t _ => some t
  | tagClose t _ _ _ => some t
  | elementReady t _ => some t
  | attr t _ => some t
  | parseError _ t _ => t
  | _ => none

end Event

/-- An event and the document as it was when the event happened. -/
structure Moment where
  event : Event
  document : Document
  deriving Inhabited

end HtmlLint
