import HtmlLint.Text.Case
import HtmlLint.Token

/-! # Documents

A document is a tree of nodes numbered in the order of their creation: the root is node 0, and each
node names its parent and its children by number.  A parent is always older than its children, which
is why the walk from a node to the root ends. -/

namespace HtmlLint

/-- The number of a node in its document. -/
abbrev NodeId := Nat

/-- The number of the root. -/
def rootId : NodeId := 0

/-- What a node is. -/
inductive NodeKind where
  /-- the container of the top-level nodes -/
  | root
  | element
  /-- a run of text -/
  | text (content : String)
  deriving DecidableEq, Inhabited

/-- How an element came to be closed. -/
inductive CloseKind where
  /-- by its end tag -/
  | explicit
  /-- by a start tag that ends it, or by the end tag of an element around it -/
  | implicit
  /-- by `/>` -/
  | selfClosed
  /-- at once, since it never has content -/
  | void
  /-- by the end of the source -/
  | endOfInput
  deriving DecidableEq, Inhabited

/-- The value of an attribute. -/
structure AttributeValue where
  text : String
  quote : Quote
  location : Location
  deriving DecidableEq, Inhabited

/-- An attribute of a start tag. -/
structure Attribute where
  key : String
  /-- where the key stands -/
  location : Location
  value : Option AttributeValue
  deriving DecidableEq, Inhabited

/-- A node.  Tag, attributes and the three flags after them are those of an element; for other nodes
they are empty, except that text inside foreign content is foreign. -/
structure Node where
  id : NodeId
  kind : NodeKind
  /-- in small letters, except inside foreign content -/
  tag : String
  attributes : List Attribute
  void : Bool
  selfClosed : Bool
  /-- it is part of foreign content such as SVG or MathML -/
  foreign : Bool
  parent : Option NodeId
  children : List NodeId
  /-- where the start tag or the text stands -/
  location : Location
  /-- the byte offset where the node ends, once that is known -/
  endOffset : Option Nat
  closed : Option CloseKind
  deriving DecidableEq, Inhabited

namespace Node

/-- A node with nothing known but its kind, tag and place. -/
def fresh (id : NodeId) (kind : NodeKind) (tag : String) (location : Location) : Node :=
  { id, kind, tag, location, attributes := [], void := false, selfClosed := false, foreign := false,
    parent := none, children := [], endOffset := none, closed := none }

/-- The node is an element. -/
def isElement (n : Node) : Bool :=
  n.kind == .element

/-- The node is the root. -/
def isRoot (n : Node) : Bool :=
  n.kind == .root

/-- The attribute of a name, whatever its case. -/
def attribute? (n : Node) (key : String) : Option Attribute :=
  n.attributes.find? fun a => Text.sameName a.key key

/-- The element has an attribute of this name, whatever its case. -/
def hasAttribute (n : Node) (key : String) : Bool :=
  (n.attribute? key).isSome

/-- The element as messages name it. -/
def displayName (n : Node) : String :=
  "<" ++ n.tag ++ ">"

/-- Store an attribute in a list, in the place of the one of the same name if there is one. -/
def storeAttribute (a : Attribute) : List Attribute → List Attribute
  | [] => [a]
  | b :: rest => if Text.sameName b.key a.key then a :: rest else b :: storeAttribute a rest

end Node

/-- Nodes in the order of their numbers, of which the first is the root. -/
structure Document where
  nodes : Array Node
  /-- the number of bytes of the source -/
  sourceLength : Nat
  rooted : 0 < nodes.size

namespace Document

/-- The document of a source of which nothing has been read. -/
def ofLength (sourceLength : Nat) : Document where
  nodes := #[.fresh rootId .root "" { toPosition := .start, size := sourceLength }]
  sourceLength := sourceLength
  rooted := by simp

instance : Inhabited Document :=
  ⟨ofLength 0⟩

/-- The number of nodes, the root included. -/
def size (d : Document) : Nat :=
  d.nodes.size

/-- There is no node but the root. -/
def isEmpty (d : Document) : Bool :=
  d.size == 1

/-- The root. -/
def root (d : Document) : Node :=
  have := d.rooted
  d.nodes[0]

/-- The node of a number. -/
def get? (d : Document) (id : NodeId) : Option Node :=
  d.nodes[id]?

/-- The node of a number that is known to have one; the root otherwise. -/
def node (d : Document) (id : NodeId) : Node :=
  (d.get? id).getD d.root

/-- Add a node at the end. -/
def push (d : Document) (n : Node) : Document where
  nodes := d.nodes.push n
  sourceLength := d.sourceLength
  rooted := by simp

/-- Change the node of a number. -/
def modify (d : Document) (id : NodeId) (f : Node → Node) : Document where
  nodes := d.nodes.modify id f
  sourceLength := d.sourceLength
  rooted := by simpa using d.rooted

/-- Make a node the last child of another. -/
def appendChild (d : Document) (parent child : NodeId) : Document :=
  (d.modify child fun n => { n with parent := some parent }).modify parent
    fun n => { n with children := n.children ++ [child] }

/-- Store an attribute on an element. -/
def setAttribute (d : Document) (id : NodeId) (a : Attribute) : Document :=
  d.modify id fun n => { n with attributes := Node.storeAttribute a n.attributes }

/-- Close an element that ends at the given offset or with its start tag, whichever is later. -/
def close (d : Document) (id : NodeId) (kind : CloseKind) (stop : Nat) : Document :=
  d.modify id fun n => { n with closed := some kind, endOffset := some (max stop n.location.stop) }

/-- All elements in the order of their numbers. -/
def elements (d : Document) : List Node :=
  d.nodes.toList.filter Node.isElement

/-- The parent of a node. -/
def parent? (d : Document) (id : NodeId) : Option Node :=
  (d.get? id).bind fun n => n.parent.bind d.get?

/-- The children of a node that are elements. -/
def childElements (d : Document) (id : NodeId) : List Node :=
  match d.get? id with
  | some n => (n.children.filterMap d.get?).filter Node.isElement
  | none => []

/-- The nodes around a node, from its parent to the root. -/
def ancestors (d : Document) (id : NodeId) : List Node :=
  match (d.get? id).bind Node.parent with
  | none => []
  | some p =>
    if p < id then
      match d.get? p with
      | some n => n :: ancestors d p
      | none => []
    else []
termination_by id

/-- The nearest element around a node that has this tag. -/
def closest? (d : Document) (id : NodeId) (tag : String) : Option Node :=
  (d.ancestors id).find? fun n => n.isElement && Text.sameName n.tag tag

/-- How deep a node is; the root has depth 0. -/
def depth (d : Document) (id : NodeId) : Nat :=
  (d.ancestors id).length

/-- The bytes of a node with everything in it, once it is known where the node ends. -/
def range? (d : Document) (id : NodeId) : Option ByteRange :=
  (d.get? id).bind fun n => n.endOffset.map fun stop =>
    ⟨n.location.offset, max stop n.location.stop⟩

end Document

end HtmlLint
