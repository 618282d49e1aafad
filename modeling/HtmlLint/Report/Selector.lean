import HtmlLint.Document
import HtmlLint.Text.Listing

/-! # Selectors

A message about an element shows a selector that finds the element: the tags on the way to it,
starting at the nearest element with a usable `id`.  A tag that its siblings share is told apart by
its place among them. -/

namespace HtmlLint

/-- The `id` of an element, if it can stand in a selector. -/
def Node.usableId? (n : Node) : Option String :=
  ((n.attribute? "id").bind fun a => a.value.map AttributeValue.text).filter fun id =>
    !id.toList.isEmpty && !id.toList.any Text.isBlank

/-- One step of a selector: the tag, and the place among the siblings if one of them has the same
tag. -/
def Document.selectorStep (d : Document) (n : Node) : String :=
  match n.parent.bind d.get? with
  | none => n.tag
  | some parent =>
    let siblings := d.childElements parent.id
    if (siblings.filter fun s => s.tag == n.tag).length > 1 then
      match siblings.findIdx? fun s => s.id == n.id with
      | some i => n.tag ++ ":nth-child(" ++ toString (i + 1) ++ ")"
      | none => n.tag
    else n.tag

/-- The steps of a selector from a node outwards through the elements around it. -/
def Document.selectorSteps (d : Document) : Node → List Node → List String
  | n, around =>
    match n.usableId? with
    | some id => ["#" ++ id]
    | none =>
      match around with
      | parent :: outer =>
        if parent.isElement then d.selectorStep n :: d.selectorSteps parent outer
        else [d.selectorStep n]
      | [] => [d.selectorStep n]

/-- The selector of an element. -/
def Document.selector? (d : Document) (id : NodeId) : Option String :=
  (d.get? id).bind fun n =>
    if n.isElement then
      some (Text.joinWith " > " (d.selectorSteps n (d.ancestors id)).reverse)
    else none

end HtmlLint
