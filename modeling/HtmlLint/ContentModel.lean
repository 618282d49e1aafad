import HtmlLint.Element.Vocabulary
import HtmlLint.Json

/-! # The content model

What may stand inside what.  Each check looks at one node, or at the children of one node, and
returns what is wrong.  An element without a model never does anything wrong, neither inside another
element nor around one. -/

namespace HtmlLint

/-- The pattern describes a node with this model. -/
def Pattern.admits (p : Pattern) (n : Node) (model : Option ElementModel) : Bool :=
  match p with
  | .tag name => Text.sameName n.tag name
  | .category name => model.any (·.hasCategory name)

/-- What a list of permitted elements says about a node. -/
inductive Verdict where
  | allowed
  /-- this pattern excludes it -/
  | excluded (pattern : Pattern)
  /-- some elements are included, and it is none of them -/
  | notIncluded
  deriving DecidableEq, Inhabited

namespace Permission

/-- The pattern of an inclusion. -/
def inclusion? : Permission → Option Pattern
  | inclusion p => some p
  | exclusion _ => none

/-- The pattern of an exclusion. -/
def exclusion? : Permission → Option Pattern
  | inclusion _ => none
  | exclusion p => some p

/-- The verdict of a list: exclusions come first, and without inclusions the rest is allowed. -/
def judge (list : List Permission) (n : Node) (model : Option ElementModel) : Verdict :=
  match (list.filterMap exclusion?).find? (·.admits n model) with
  | some p => .excluded p
  | none =>
    let included := list.filterMap inclusion?
    if included.isEmpty || included.any (·.admits n model) then .allowed else .notIncluded

end Permission

/-- Something wrong with a node. -/
structure Violation where
  node : NodeId
  text : String
  context : Json
  deriving Inhabited

namespace ContentModel

/-- The element children of a node that have a model, with it. -/
def knownChildren (v : Vocabulary) (d : Document) (id : NodeId) : List (Node × ElementModel) :=
  (d.childElements id).filterMap fun child => (v.modelOf? child).map (child, ·)

/-- A node with its model, if it has one. -/
def known? (v : Vocabulary) (d : Document) (id : NodeId) : Option (Node × ElementModel) :=
  (d.get? id).bind fun n => (v.modelOf? n).map (n, ·)

/-- The children that the node's list of permitted content does not allow. -/
def permittedContent (v : Vocabulary) (d : Document) (id : NodeId) : List Violation :=
  match known? v d id with
  | none => []
  | some (parent, model) =>
    if model.permittedContent.isEmpty then []
    else
      ((knownChildren v d id).filter fun c =>
        Permission.judge model.permittedContent c.1 (some c.2) != .allowed).map fun c =>
          ⟨c.1.id,
            c.1.displayName ++ " element is not permitted as content under " ++ parent.displayName,
            .obj [("child", .str c.1.tag), ("kind", .str "content"), ("parent", .str parent.tag)]⟩

/-- The node itself, if its own list of permitted parents does not allow its parent. -/
def permittedParent (v : Vocabulary) (d : Document) (id : NodeId) : List Violation :=
  match known? v d id, d.parent? id with
  | some (child, model), some parent =>
    if model.permittedParent.isEmpty || parent.isRoot then []
    else
      match v.modelOf? parent with
      | none => []
      | some parentModel =>
        let context : Json :=
          .obj [("child", .str child.tag), ("kind", .str "parent"), ("parent", .str parent.tag)]
        match Permission.judge model.permittedParent parent (some parentModel) with
        | .allowed => []
        | .excluded _ =>
          [⟨id, child.displayName ++ " element is not permitted as a child of " ++
            parent.displayName, context⟩]
        | .notIncluded =>
          let parents :=
            (model.permittedParent.filterMap Permission.inclusion?).map Pattern.describe
          [⟨id, child.displayName ++ " element requires a " ++ Text.listing "or" parents
            ++ " element as parent", context⟩]
  | _, _ => []

/-- The place of a node in an order: the first group with a pattern that describes it. -/
def rank? (groups : List (List Pattern)) (n : Node) (model : ElementModel) : Option Nat :=
  groups.findIdx? fun group => group.any (·.admits n (some model))

/-- Go through children in order.  `highest` is the greatest rank so far with the first child of
that rank; a child of a smaller rank comes too late. -/
def misplaced (groups : List (List Pattern)) :
    Option (Nat × Node) → List (Node × ElementModel) → List (Node × Node)
  | _, [] => []
  | highest, (child, model) :: rest =>
    match rank? groups child model, highest with
    | none, _ => misplaced groups highest rest
    | some rank, none => misplaced groups (some (rank, child)) rest
    | some rank, some (top, first) =>
      if rank < top then (child, first) :: misplaced groups highest rest
      else if rank = top then misplaced groups highest rest
      else misplaced groups (some (rank, child)) rest

/-- The children that come after an element they must precede. -/
def permittedOrder (v : Vocabulary) (d : Document) (id : NodeId) : List Violation :=
  match known? v d id with
  | none => []
  | some (_, model) =>
    (misplaced model.permittedOrder none (knownChildren v d id)).map fun c =>
      ⟨c.1.id,
        "Element " ++ c.1.displayName ++ " must be used before " ++ c.2.displayName
          ++ " in this context",
        .obj [("before", .str c.2.tag), ("child", .str c.1.tag), ("kind", .str "order")]⟩

/-- How often is allowed, in words. -/
def limitText (most : Nat) : String :=
  if most = 1 then "once" else "at most " ++ toString most ++ " times"

/-- The children beyond the number of them that is allowed. -/
def permittedOccurrences (v : Vocabulary) (d : Document) (id : NodeId) : List Violation :=
  match known? v d id with
  | none => []
  | some (parent, model) =>
    model.permittedOccurrences.entries.flatMap fun (pattern, most) =>
      let found := (knownChildren v d id).filter fun c =>
        (Pattern.ofString pattern).admits c.1 (some c.2)
      (found.drop most).map fun c =>
        ⟨c.1.id,
          "Element " ++ c.1.displayName ++ " can only appear " ++ limitText most ++ " under "
            ++ parent.displayName,
          .obj [("child", .str c.1.tag), ("kind", .str "occurrences"), ("max", .num most)]⟩

/-- The node itself, once for each pattern that no child matches and one must. -/
def requiredContent (v : Vocabulary) (d : Document) (id : NodeId) : List Violation :=
  match known? v d id with
  | none => []
  | some (n, model) =>
    (model.requiredContent.filter fun p =>
      !(d.childElements id).any fun child => p.admits child (v.modelOf? child)).map fun p =>
        ⟨id, n.displayName ++ " element must have " ++ p.describe ++ " as content",
          .obj [("element", .str n.tag), ("kind", .str "required-content"),
            ("missing", .str p.spelling)]⟩

/-- The node itself, if it must stand inside one of some elements and does not. -/
def requiredAncestors (v : Vocabulary) (d : Document) (id : NodeId) : List Violation :=
  match known? v d id with
  | none => []
  | some (n, model) =>
    let around := (d.ancestors id).filter Node.isElement
    let satisfied := around.any fun a => model.requiredAncestors.any (·.admits a (v.modelOf? a))
    if model.requiredAncestors.isEmpty || satisfied then []
    else
      [⟨id,
        n.displayName ++ " element requires a "
          ++ Text.listing "or" (model.requiredAncestors.map Pattern.describe) ++ " ancestor",
        .obj [("ancestors", .arr (model.requiredAncestors.map fun p => .str p.spelling)),
          ("element", .str n.tag), ("kind", .str "required-ancestor")]⟩]

/-- The node itself, once for each attribute that it must have and does not. -/
def requiredAttributes (v : Vocabulary) (d : Document) (id : NodeId) : List Violation :=
  match known? v d id with
  | none => []
  | some (n, model) =>
    (model.requiredAttributes.filter fun key => !n.hasAttribute key).map fun key =>
      ⟨id, n.displayName ++ " is missing required \"" ++ key ++ "\" attribute",
        .obj [("attribute", .str key), ("element", .str n.tag),
          ("kind", .str "required-attribute")]⟩

end ContentModel

/-- The checks of the content model. -/
inductive ContentCheck where
  | permittedContent
  | permittedParent
  | permittedOrder
  | permittedOccurrences
  | requiredContent
  | requiredAncestors
  | requiredAttributes
  deriving DecidableEq, Inhabited

/-- What a check finds wrong about a node. -/
def ContentCheck.violations (check : ContentCheck) (v : Vocabulary) (d : Document) (id : NodeId) :
    List Violation :=
  match check with
  | permittedContent => ContentModel.permittedContent v d id
  | permittedParent => ContentModel.permittedParent v d id
  | permittedOrder => ContentModel.permittedOrder v d id
  | permittedOccurrences => ContentModel.permittedOccurrences v d id
  | requiredContent => ContentModel.requiredContent v d id
  | requiredAncestors => ContentModel.requiredAncestors v d id
  | requiredAttributes => ContentModel.requiredAttributes v d id

end HtmlLint
