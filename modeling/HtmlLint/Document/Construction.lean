import HtmlLint.Document.Directive
import HtmlLint.Element.Vocabulary

/-! # Building a document

A document is built from tokens one at a time.  `Construction` holds the tree built so far, the
elements that are open, innermost first, and the tag whose `>` has not come yet.  Every step returns
the moments it goes through.  No sequence of tokens is refused: an end tag that belongs to nothing
and an element that is never closed become events, and the construction goes on. -/

namespace HtmlLint

/-- An attribute that may still get a value. -/
structure PendingAttribute where
  key : String
  location : Location
  deriving DecidableEq, Inhabited

/-- A tag whose end has not come yet. -/
inductive PendingTag where
  /-- the start tag of an element, and its last attribute if that is not stored yet -/
  | opening (node : NodeId) (last : Option PendingAttribute)
  /-- an end tag -/
  | closing (name : String) (location : Location)
  deriving DecidableEq, Inhabited

/-- The state of building a document. -/
structure Construction where
  document : Document
  /-- the open elements, innermost first -/
  openElements : List NodeId
  pending : Option PendingTag
  /-- the first event has happened -/
  started : Bool
  deriving Inhabited

/-- How one element is closed, and the error to report before that. -/
structure Closing where
  error : Option StructuralError
  kind : CloseKind
  previous : Option NodeId
  location : Location
  stop : Nat
  deriving DecidableEq, Inhabited

namespace Construction

/-- The construction of a document of which nothing has been read. -/
def ofLength (sourceLength : Nat) : Construction :=
  ⟨.ofLength sourceLength, [], none, false⟩

/-- The element that new nodes go into. -/
def current (c : Construction) : NodeId :=
  c.openElements.headD rootId

/-- The root and the open elements, outermost first. -/
def openPath (c : Construction) : List NodeId :=
  rootId :: c.openElements.reverse

/-- The first event, if it has not happened. -/
def start (c : Construction) : Construction × List Moment :=
  if c.started then (c, []) else ({ c with started := true }, [⟨.domLoad, c.document⟩])

/-- Close one element. -/
def closeOne (id : NodeId) (how : Closing) (d : Document) : Document × List Moment :=
  let closed := d.close id how.kind how.stop
  let complaint := how.error.toList.map fun e => ⟨.parseError e (some id) how.location, d⟩
  (closed, complaint ++ [⟨.tagClose id how.previous how.kind how.location, closed⟩,
    ⟨.elementReady id how.location, closed⟩])

/-- Close the innermost open element.  There is none where only the root is left. -/
def closeCurrent? (how : Node → Closing) (c : Construction) : Option (Construction × List Moment) :=
  match c.openElements with
  | [] => none
  | top :: left =>
    let (d, moments) := closeOne top (how (c.document.node top)) c.document
    some ({ c with document := d, openElements := left }, moments)

/-- Close the innermost open element, if there is one. -/
def closeCurrent (how : Node → Closing) (c : Construction) : Construction × List Moment :=
  (c.closeCurrent? how).getD (c, [])

/-- A way to close the innermost open element.  All functions that close elements are given one, and
close them through it alone. -/
abbrev Closer (m : Type → Type) :=
  (Node → Closing) → Construction → m (Construction × List Moment)

/-- The end tag of this node may be left out. -/
def hasOptionalEnd (v : Vocabulary) (n : Node) : Bool :=
  (v.modelOf? n).any (·.optionalEnd)

/-- The start of an element with this tag ends this node. -/
def endsBefore (v : Vocabulary) (tag : String) (n : Node) : Bool :=
  (v.modelOf? n).any (·.isClosedBy tag)

/-- Store the attribute that waits for a value, which is the given one if there is one. -/
def storeLast (value : Option Token) (c : Construction) : Construction × List Moment :=
  match c.pending with
  | some (.opening node (some last)) =>
    let a : Attribute := ⟨last.key, last.location,
      value.map fun t => ⟨t.attrValue.1, t.attrValue.2, t.location⟩⟩
    ({ c with document := c.document.setAttribute node a, pending := some (.opening node none) },
      [⟨.attr node a, c.document⟩])
  | _ => (c, [])

/-- Remember an attribute whose value may follow. -/
def expectValue (t : Token) (c : Construction) : Construction :=
  match c.pending with
  | some (.opening node _) => { c with pending := some (.opening node (some ⟨t.text, t.location⟩)) }
  | _ => c

/-- The node has this tag. -/
def isCalled (name : String) (n : Node) : Bool :=
  Text.sameName n.tag name

/-- What is wrong with an end tag that belongs to no open element, and with which element. -/
def mismatch (v : Vocabulary) (name : String) (c : Construction) :
    StructuralError × Option NodeId :=
  match c.openElements with
  | [] => (.strayEndTag name, none)
  | top :: _ =>
    if (v.find? name).any (·.void) then (.strayEndTag name, none)
    else (.mismatchedClose (c.document.node top).tag name, some top)

/-- Add a run of text. -/
def addText (t : Token) (c : Construction) : Construction :=
  let id := c.document.size
  let n := { Node.fresh id (.text t.text) "" t.location with
    foreign := (c.document.node c.current).foreign
    endOffset := some t.location.stop }
  { c with document := (c.document.push n).appendChild c.current id }

/-! ## Closing elements

What follows is the same for every way to close the innermost open element. -/

section Closing

variable {m : Type → Type} [Monad m]

/-- Close open elements from the innermost on, as long as the next one is of a sort. -/
def closeWhileM (close : Closer m) (more : Node → Bool) (how : Node → Closing) :
    List NodeId → Construction → m (Construction × List Moment)
  | [], c => pure (c, [])
  | top :: left, c =>
    if more (c.document.node top) then do
      let first ← close how c
      let later ← closeWhileM close more how left first.1
      return (later.1, first.2 ++ later.2)
    else pure (c, [])

/-- Open an element.  The new node is made first, then the open elements that it ends are closed,
and then it gets its place in what is left. -/
def openTagM (close : Closer m) (v : Vocabulary) (t : Token) (c : Construction) :
    m (Construction × List Moment) := do
  let inForeign := (c.document.node c.current).foreign
  let model := v.find? t.tagName
  let tag := if inForeign then t.tagName else Text.foldCase t.tagName
  let id := c.document.size
  let new := { Node.fresh id .element tag t.location with
    foreign := inForeign || model.any (·.foreign)
    void := !inForeign && model.any (·.void) }
  let made : Construction := { c with document := c.document.push new }
  let ends (n : Node) : Bool := !inForeign && endsBefore v tag n
  let how (_ : Node) : Closing := ⟨none, .implicit, some id, t.location, t.location.offset⟩
  let (left, moments) ← closeWhileM close ends how made.openElements made
  let d := left.document.appendChild left.current id
  return ({ left with
      document := d, openElements := id :: left.openElements, pending := some (.opening id none) },
    moments ++ [⟨.tagOpen id t.location, d⟩])

/-- Close the innermost element of a name with everything in it, or report that there is none. -/
def closeTagM (close : Closer m) (v : Vocabulary) (name : String) (location : Location)
    (c : Construction) :
    m (Construction × List Moment) := do
  let isOther (n : Node) : Bool := !isCalled name n
  if c.openElements.all fun id => isOther (c.document.node id) then
    let (error, target) := c.mismatch v name
    return (c, [⟨.parseError error target location, c.document⟩])
  let how (n : Node) : Closing :=
    ⟨if hasOptionalEnd v n then none else some (.mismatchedClose n.tag name), .implicit,
      none, location, location.offset⟩
  let inner ← closeWhileM close isOther how c.openElements c
  let outer ← close (fun _ => ⟨none, .explicit, none, location, location.stop⟩) inner.1
  return (outer.1, inner.2 ++ outer.2)

/-- The end of a start tag: the element is closed at once if it is void or the tag ends in `/>`. -/
def finishOpeningM (close : Closer m) (node : NodeId) (t : Token) (c : Construction) :
    m (Construction × List Moment) :=
  let d := c.document.modify node fun n =>
    { n with location := n.location.extendTo t.location, selfClosed := t.isSelfClosing }
  let n := d.node node
  let ended : Construction := { c with document := d, pending := none }
  if n.void || t.isSelfClosing then
    let kind := if n.void then CloseKind.void else .selfClosed
    close (fun _ => ⟨none, kind, none, n.location, t.location.stop⟩) ended
  else pure (ended, [])

/-- The end of a tag. -/
def finishTagM (close : Closer m) (v : Vocabulary) (t : Token) (c : Construction) :
    m (Construction × List Moment) :=
  match c.pending with
  | some (.opening node _) => c.finishOpeningM close node t
  | some (.closing name location) =>
    { c with pending := none }.closeTagM close v name (location.extendTo t.location)
  | none => pure (c, [])

/-- What a token does once the construction has started. -/
def stepM (close : Closer m) (v : Vocabulary) (t : Token) (c : Construction) :
    m (Construction × List Moment) :=
  match t.kind with
  | .tagOpen =>
    if t.isEndTag then pure ({ c with pending := some (.closing t.tagName t.location) }, [])
    else c.openTagM close v t
  | .attrName =>
    let (c, moments) := c.storeLast none
    pure (c.expectValue t, moments)
  | .attrValue => pure (c.storeLast (some t))
  | .tagClose => do
    let first := c.storeLast none
    let later ← first.1.finishTagM close v t
    return (later.1, first.2 ++ later.2)
  | .text => pure (c.addText t, [])
  | .comment =>
    pure (c, (Directive.event? t c.current).toList.map fun e => ⟨e, c.document⟩)
  | .doctype => pure (c, [⟨.doctype t.doctypeValue t.location, c.document⟩])

/-- Take in one token. -/
def pushM (close : Closer m) (v : Vocabulary) (t : Token) (c : Construction) :
    m (Construction × List Moment) := do
  let first := c.start
  let later ← first.1.stepM close v t
  return (later.1, first.2 ++ later.2)

/-- Close what is still open and end the document. -/
def finishM (close : Closer m) (v : Vocabulary) (c : Construction) :
    m (Document × List Moment) := do
  let first := c.start
  let length := first.1.document.sourceLength
  let how (n : Node) : Closing :=
    ⟨if hasOptionalEnd v n then none else some (.unclosedElement n.tag), .endOfInput,
      none, n.location, length⟩
  let closed ← closeWhileM close (fun _ => true) how first.1.openElements first.1
  let final := closed.1.document.modify rootId fun n => { n with endOffset := some length }
  return (final, first.2 ++ closed.2 ++ [⟨.domReady, final⟩])

end Closing

/-! ## The construction

An element is closed if there is one, and nothing happens otherwise. -/

/-- Open an element. -/
def openTag (v : Vocabulary) (t : Token) (c : Construction) : Construction × List Moment :=
  Id.run (c.openTagM closeCurrent v t)

/-- Close the innermost element of a name with everything in it, or report that there is none. -/
def closeTag (v : Vocabulary) (name : String) (location : Location) (c : Construction) :
    Construction × List Moment :=
  Id.run (c.closeTagM closeCurrent v name location)

/-- The end of a start tag. -/
def finishOpening (node : NodeId) (t : Token) (c : Construction) : Construction × List Moment :=
  Id.run (c.finishOpeningM closeCurrent node t)

/-- The end of a tag. -/
def finishTag (v : Vocabulary) (t : Token) (c : Construction) : Construction × List Moment :=
  Id.run (c.finishTagM closeCurrent v t)

/-- What a token does once the construction has started. -/
def step (v : Vocabulary) (t : Token) (c : Construction) : Construction × List Moment :=
  Id.run (c.stepM closeCurrent v t)

/-- Take in one token. -/
def push (v : Vocabulary) (t : Token) (c : Construction) : Construction × List Moment :=
  Id.run (c.pushM closeCurrent v t)

/-- Close what is still open and end the document. -/
def finish (v : Vocabulary) (c : Construction) : Document × List Moment :=
  Id.run (c.finishM closeCurrent v)

/-- Take in tokens and show every moment to an observer. -/
def pushAll {σ : Type} (v : Vocabulary) (observe : σ → Moment → σ) :
    List Token → Construction → σ → Construction × σ
  | [], c, s => (c, s)
  | t :: ts, c, s =>
    let next := c.push v t
    pushAll v observe ts next.1 (next.2.foldl observe s)

end Construction

end HtmlLint
