import Mathlib.Data.List.TakeWhile
import HtmlLint.Proofs.Construction.Move

/-!
# Closing elements

The functions of a construction are written for every way to close the innermost open element.  What
they do with one that closes it wherever there is one (`Construction.Closer.Closes`) is said here by
one equation for each function, in which the elements to close are known beforehand: the loop that
closes open elements closes a first part of them (`closeWhileM_eq`).  So the equations of the
construction itself (`openTag_eq`, `closeTag_eq`, `finishOpening_eq`, `finish_eq`) and those of one
that fails where no element is open are the same.
-/

namespace HtmlLint

/-- The nodes are the same but for how and where they end. -/
def Node.SameButEnd (n n' : Node) : Prop :=
  n' = { n with closed := n'.closed, endOffset := n'.endOffset }

namespace Node.SameButEnd

variable {n n' n'' : Node}

/-- Every node is the same as itself. -/
theorem refl (n : Node) : n.SameButEnd n := rfl

/-- Several changes of where a node ends are one. -/
theorem trans (h : n.SameButEnd n') (h' : n'.SameButEnd n'') : n.SameButEnd n'' := by
  unfold SameButEnd at *
  rw [h', h]

end Node.SameButEnd

namespace Construction

variable {v : Vocabulary} {c : Construction}

/-! ## The loop -/

/-- Close elements one after the other. -/
def closeAll (how : Node → Closing) : List NodeId → Document → Document × List Moment
  | [], d => (d, [])
  | id :: ids, d =>
    let first := closeOne id (how (d.node id)) d
    let later := closeAll how ids first.1
    (later.1, first.2 ++ later.2)

/-- Closing an element changes nothing but where it ends. -/
theorem closeOne_matches (id : NodeId) (how : Closing) (d : Document) :
    d.Matches Node.SameButEnd (closeOne id how d).1 :=
  .modify .refl fun _ => rfl

/-- Neither does closing several of them. -/
theorem closeAll_matches (how : Node → Closing) (ids : List NodeId) (d : Document) :
    d.Matches Node.SameButEnd (closeAll how ids d).1 := by
  induction ids generalizing d with
  | nil => exact .refl .refl d
  | cons id ids ih => exact (closeOne_matches id _ d).trans Node.SameButEnd.trans (ih _)

/-- Close the first of the open elements, so that others are left. -/
def closeThrough (how : Node → Closing) (ids left : List NodeId) (c : Construction) :
    Construction × List Moment :=
  let closed := closeAll how ids c.document
  ({ c with document := closed.1, openElements := left }, closed.2)

/-- The innermost open element is closed wherever there is one. -/
def Closer.Closes {m : Type → Type} [Monad m] (close : Closer m) : Prop :=
  ∀ (how : Node → Closing) (c : Construction) (top : NodeId) (left : List NodeId),
    c.openElements = top :: left →
      let closed := closeOne top (how (c.document.node top)) c.document
      close how c = pure ({ c with document := closed.1, openElements := left }, closed.2)

/-- The guarded step closes the innermost open element where there is one. -/
theorem closes_closeCurrent? : Closer.Closes closeCurrent? := by
  intro how c top left h
  simp only [closeCurrent?, h]
  rfl

/-- So does the step that does nothing where there is none. -/
theorem closes_closeCurrent : Closer.Closes (m := Id) closeCurrent := by
  intro how c top left h
  rw [closeCurrent, closes_closeCurrent? how c top left h]
  rfl

section Closes

variable {m : Type → Type} [Monad m] [LawfulMonad m] {close : Closer m}

/-- If it does not depend on the ends of nodes which elements are of the sort, the loop closes the
open elements up to the first that is not. -/
theorem closeWhileM_eq (hclose : close.Closes) {more : Node → Bool}
    (hmore : ∀ n n' : Node, n.SameButEnd n' → more n' = more n) (how : Node → Closing)
    {ids : List NodeId} (h : c.openElements = ids) :
    closeWhileM close more how ids c =
      pure (c.closeThrough how (ids.takeWhile fun id => more (c.document.node id))
        (ids.dropWhile fun id => more (c.document.node id))) := by
  induction ids generalizing c with
  | nil =>
    have hnone : c.closeThrough how [] [] = (c, []) := by simp only [closeThrough, closeAll, ← h]
    exact congrArg pure hnone.symm
  | cons top left ih =>
    rw [closeWhileM, List.takeWhile_cons, List.dropWhile_cons]
    cases htop : more (c.document.node top) with
    | false =>
      have hnone : c.closeThrough how [] (top :: left) = (c, []) := by rw [← h]; rfl
      exact congrArg pure hnone.symm
    | true =>
      -- closing the first element does not change which of the others are of the sort
      have hsame :
          (fun id => more ((closeOne top (how (c.document.node top)) c.document).1.node id)) =
          fun id => more (c.document.node id) := by
        funext id
        exact hmore _ _ ((closeOne_matches top _ c.document).node id)
      rw [if_pos rfl, if_pos rfl, if_pos rfl, hclose how c top left h, pure_bind, ih rfl,
        pure_bind, hsame]
      rfl

end Closes

/-! ## The beginning of a start tag -/

/-- The element that a start tag makes. -/
def newElement (v : Vocabulary) (t : Token) (c : Construction) : Node :=
  let inForeign := (c.document.node c.current).foreign
  let model := v.find? t.tagName
  .newElement c.document.size (if inForeign then t.tagName else Text.foldCase t.tagName) t.location
    (inForeign || model.any (·.foreign)) (!inForeign && model.any (·.void))

/-- The open element of this number ends where a start tag begins. -/
def isEndedBy (v : Vocabulary) (t : Token) (c : Construction) (id : NodeId) : Bool :=
  !(c.document.node c.current).foreign &&
    endsBefore v (newElement v t c).tag ((c.document.push (newElement v t c)).node id)

/-- How a start tag closes the elements that it ends. -/
def closingBefore (t : Token) (new : NodeId) (_ : Node) : Closing :=
  ⟨none, .implicit, some new, t.location, t.location.offset⟩

/-- Whether a start tag ends a node does not depend on where the node ends. -/
private theorem endsBefore_of_sameButEnd (tag : String) {n n' : Node} (h : n.SameButEnd n') :
    endsBefore v tag n' = endsBefore v tag n := by
  rw [h]
  rfl

/-- Opening an element closes those that it ends, one after the other, and then takes its place in
what is left. -/
theorem openTagM_eq {m : Type → Type} [Monad m] [LawfulMonad m] {close : Closer m}
    (hclose : close.Closes) (v : Vocabulary) (t : Token) (c : Construction) :
    c.openTagM close v t =
      let id := c.document.size
      let closed := closeAll (closingBefore t id) (c.openElements.takeWhile (isEndedBy v t c))
        (c.document.push (newElement v t c))
      let left := c.openElements.dropWhile (isEndedBy v t c)
      let d := closed.1.appendChild (left.headD rootId) id
      pure ({ c with
        document := d, openElements := id :: left, pending := some (.opening id none) },
        closed.2 ++ [⟨.tagOpen id t.location, d⟩]) := by
  -- closing writes ends only, so which elements the new tag ends can be read off before the loop
  have hmore : ∀ n n' : Node, n.SameButEnd n' →
      (!(c.document.node c.current).foreign && endsBefore v (newElement v t c).tag n') =
        (!(c.document.node c.current).foreign && endsBefore v (newElement v t c).tag n) := by
    intro n n' h
    rw [endsBefore_of_sameButEnd _ h]
  have hloop :=
    closeWhileM_eq (c := { c with document := c.document.push (newElement v t c) }) hclose
    hmore (closingBefore t c.document.size) rfl
  have hopen : c.openTagM close v t = (do
      let closed ← closeWhileM close (fun n => !(c.document.node c.current).foreign &&
        endsBefore v (newElement v t c).tag n) (closingBefore t c.document.size) c.openElements
        { c with document := c.document.push (newElement v t c) }
      let d := closed.1.document.appendChild closed.1.current c.document.size
      pure ({ closed.1 with
          document := d, openElements := c.document.size :: closed.1.openElements,
          pending := some (.opening c.document.size none) },
        closed.2 ++ [⟨.tagOpen c.document.size t.location, d⟩])) := rfl
  rw [hopen, hloop, pure_bind]
  rfl

/-- In particular for the step that does nothing where nothing is open. -/
theorem openTag_eq (v : Vocabulary) (t : Token) (c : Construction) :
    c.openTag v t =
      let id := c.document.size
      let closed := closeAll (closingBefore t id) (c.openElements.takeWhile (isEndedBy v t c))
        (c.document.push (newElement v t c))
      let left := c.openElements.dropWhile (isEndedBy v t c)
      let d := closed.1.appendChild (left.headD rootId) id
      ({ c with document := d, openElements := id :: left, pending := some (.opening id none) },
        closed.2 ++ [⟨.tagOpen id t.location, d⟩]) :=
  openTagM_eq closes_closeCurrent v t c

/-- The new element is open in those that it does not end. -/
theorem openElements_openTag (v : Vocabulary) (t : Token) (c : Construction) :
    (c.openTag v t).1.openElements =
      c.document.size :: c.openElements.dropWhile (isEndedBy v t c) := by
  rw [openTag_eq]

/-! ## End tags and the end of the source -/

/-- How an element is closed that has no end tag of its own: that is an error, unless the end tag
may be left out. -/
def closingWithoutEnd (v : Vocabulary) (kind : CloseKind) (fault : Node → StructuralError)
    (place : Node → Location) (stop : Nat) (n : Node) : Closing :=
  ⟨if hasOptionalEnd v n then none else some (fault n), kind, none, place n, stop⟩

/-- How an end tag closes the elements inside of the one that it belongs to. -/
def closingInside (v : Vocabulary) (name : String) (location : Location) : Node → Closing :=
  closingWithoutEnd v .implicit (fun n => .mismatchedClose n.tag name) (fun _ => location)
    location.offset

/-- How the end of the source closes the elements that are open. -/
def closingAtEnd (v : Vocabulary) (stop : Nat) : Node → Closing :=
  closingWithoutEnd v .endOfInput (fun n => .unclosedElement n.tag) Node.location stop

/-- The name of a node does not depend on where the node ends. -/
private theorem isCalled_of_sameButEnd (name : String) {n n' : Node} (h : n.SameButEnd n') :
    isCalled name n' = isCalled name n := by
  rw [h]
  rfl

/-- An end tag closes the elements inside the innermost one of its name and then that one, or is an
error if there is none. -/
theorem closeTagM_eq {m : Type → Type} [Monad m] [LawfulMonad m] {close : Closer m}
    (hclose : close.Closes) (v : Vocabulary) (name : String) (location : Location)
    (c : Construction) :
    c.closeTagM close v name location =
      match c.openElements.dropWhile fun id => !isCalled name (c.document.node id) with
      | [] =>
        pure (c, [⟨.parseError (c.mismatch v name).1 (c.mismatch v name).2 location, c.document⟩])
      | found :: left =>
        let inner := closeAll (closingInside v name location)
          (c.openElements.takeWhile fun id => !isCalled name (c.document.node id)) c.document
        let outer := closeOne found ⟨none, .explicit, none, location, location.stop⟩ inner.1
        pure ({ c with document := outer.1, openElements := left }, inner.2 ++ outer.2) := by
  -- closing writes ends only, so the elements inside can be read off before the loop
  have hmore : ∀ n n' : Node, n.SameButEnd n' → (!isCalled name n') = !isCalled name n := by
    intro n n' h
    rw [isCalled_of_sameButEnd name h]
  have hloop := closeWhileM_eq (c := c) hclose hmore (closingInside v name location) rfl
  have hall : (c.openElements.all fun id => !isCalled name (c.document.node id)) = true ↔
      c.openElements.dropWhile (fun id => !isCalled name (c.document.node id)) = [] := by
    rw [List.all_eq_true, List.dropWhile_eq_nil_iff]
  cases hfound : c.openElements.dropWhile fun id => !isCalled name (c.document.node id) with
  | nil =>
    rw [closeTagM, if_pos (hall.mpr hfound)]
  | cons found left =>
    have hsome : ¬(c.openElements.all fun id => !isCalled name (c.document.node id)) = true := by
      rw [hall, hfound]
      exact List.cons_ne_nil found left
    have hclosed : c.closeTagM close v name location = (do
        let inner ← closeWhileM close (fun n => !isCalled name n) (closingInside v name location)
          c.openElements c
        let outer ← close (fun _ => ⟨none, .explicit, none, location, location.stop⟩) inner.1
        pure (outer.1, inner.2 ++ outer.2)) := by
      rw [closeTagM, if_neg hsome]
      rfl
    -- after the loop the element looked for is innermost, and the last closing takes it
    rw [hclosed, hloop, hfound, pure_bind, hclose _ _ found left rfl, pure_bind]
    rfl

/-- In particular for the step that does nothing where nothing is open. -/
theorem closeTag_eq (v : Vocabulary) (name : String) (location : Location) (c : Construction) :
    c.closeTag v name location =
      match c.openElements.dropWhile fun id => !isCalled name (c.document.node id) with
      | [] => (c, [⟨.parseError (c.mismatch v name).1 (c.mismatch v name).2 location, c.document⟩])
      | found :: left =>
        let inner := closeAll (closingInside v name location)
          (c.openElements.takeWhile fun id => !isCalled name (c.document.node id)) c.document
        let outer := closeOne found ⟨none, .explicit, none, location, location.stop⟩ inner.1
        ({ c with document := outer.1, openElements := left }, inner.2 ++ outer.2) :=
  closeTagM_eq closes_closeCurrent v name location c

/-- An end tag that belongs to an open element closes it, after all that is open inside of it. -/
theorem closeTag_of_found {name : String} {found : NodeId} {left : List NodeId}
    (h : c.openElements.dropWhile (fun id => !isCalled name (c.document.node id)) = found :: left)
    (location : Location) :
    c.closeTag v name location =
      let inner := closeAll (closingInside v name location)
        (c.openElements.takeWhile fun id => !isCalled name (c.document.node id)) c.document
      let outer := closeOne found ⟨none, .explicit, none, location, location.stop⟩ inner.1
      ({ c with document := outer.1, openElements := left }, inner.2 ++ outer.2) := by
  rw [closeTag_eq, h]

/-- The end of the source closes all that is open. -/
theorem finishM_eq {m : Type → Type} [Monad m] [LawfulMonad m] {close : Closer m}
    (hclose : close.Closes) (v : Vocabulary) (c : Construction) :
    c.finishM close v =
      let first := c.start
      let d := first.1.document
      let closed := closeAll (closingAtEnd v d.sourceLength) first.1.openElements d
      let final := closed.1.modify rootId fun n => { n with endOffset := some d.sourceLength }
      pure (final, first.2 ++ closed.2 ++ [⟨.domReady, final⟩]) := by
  have hmore : ∀ n n' : Node, n.SameButEnd n' → (fun _ : Node => true) n' = (fun _ => true) n :=
    fun _ _ _ => rfl
  have hloop := closeWhileM_eq (c := c.start.1) hclose hmore
    (closingAtEnd v c.start.1.document.sourceLength) rfl
  have hend : c.finishM close v = (do
      let closed ← closeWhileM close (fun _ => true)
        (closingAtEnd v c.start.1.document.sourceLength) c.start.1.openElements c.start.1
      let final := closed.1.document.modify rootId fun n =>
        { n with endOffset := some c.start.1.document.sourceLength }
      pure (final, c.start.2 ++ closed.2 ++ [⟨.domReady, final⟩])) := rfl
  rw [hend, hloop, pure_bind, List.takeWhile_eq_self_iff.mpr fun _ _ => rfl]
  rfl

/-- In particular for the step that does nothing where nothing is open. -/
theorem finish_eq (v : Vocabulary) (c : Construction) :
    c.finish v =
      let first := c.start
      let d := first.1.document
      let closed := closeAll (closingAtEnd v d.sourceLength) first.1.openElements d
      let final := closed.1.modify rootId fun n => { n with endOffset := some d.sourceLength }
      (final, first.2 ++ closed.2 ++ [⟨.domReady, final⟩]) :=
  finishM_eq closes_closeCurrent v c

/-! ## The end of a tag -/

/-- The end of the start tag of the innermost open element. -/
theorem finishOpeningM_of_top {m : Type → Type} [Monad m] [LawfulMonad m] {close : Closer m}
    (hclose : close.Closes) {node : NodeId} {left : List NodeId} (h : c.openElements = node :: left)
    (t : Token) :
    c.finishOpeningM close node t =
      let d := c.document.modify node fun n =>
        { n with location := n.location.extendTo t.location, selfClosed := t.isSelfClosing }
      let n := d.node node
      if n.void || t.isSelfClosing then
        let closed := closeOne node
          ⟨none, if n.void then .void else .selfClosed, none, n.location, t.location.stop⟩ d
        pure ({ c with document := closed.1, openElements := left, pending := none }, closed.2)
      else pure ({ c with document := d, pending := none }, []) := by
  rw [finishOpeningM]
  dsimp only
  split
  · exact hclose _ { c with document := _, pending := none } node left h
  · rfl

/-- The end of a start tag, without the ways to close. -/
theorem finishOpening_eq (node : NodeId) (t : Token) (c : Construction) :
    c.finishOpening node t =
      let d := c.document.modify node fun n =>
        { n with location := n.location.extendTo t.location, selfClosed := t.isSelfClosing }
      let n := d.node node
      match c.openElements with
      | top :: left =>
        if n.void || t.isSelfClosing then
          let closed := closeOne top
            ⟨none, if n.void then .void else .selfClosed, none, n.location, t.location.stop⟩ d
          ({ c with document := closed.1, openElements := left, pending := none }, closed.2)
        else ({ c with document := d, pending := none }, [])
      | [] => ({ c with document := d, pending := none }, []) := by
  simp only [finishOpening, finishOpeningM, closeCurrent, closeCurrent?]
  cases c.openElements with
  | nil => split <;> rfl
  | cons top left => split <;> rfl

/-- The end of a tag, without the ways to close. -/
theorem finishTag_eq (v : Vocabulary) (t : Token) (c : Construction) :
    c.finishTag v t =
      match c.pending with
      | some (.opening node _) => c.finishOpening node t
      | some (.closing name location) =>
        { c with pending := none }.closeTag v name (location.extendTo t.location)
      | none => (c, []) := rfl

/-! ## One token -/

/-- What a token does, without the ways to close. -/
theorem step_eq (v : Vocabulary) (t : Token) (c : Construction) :
    c.step v t =
      match t.kind with
      | .tagOpen =>
        if t.isEndTag then ({ c with pending := some (.closing t.tagName t.location) }, [])
        else c.openTag v t
      | .attrName => ((c.storeLast none).1.expectValue t, (c.storeLast none).2)
      | .attrValue => c.storeLast (some t)
      | .tagClose =>
        let first := c.storeLast none
        let later := first.1.finishTag v t
        (later.1, first.2 ++ later.2)
      | .text => (c.addText t, [])
      | .comment => (c, (Directive.event? t c.current).toList.map fun e => ⟨e, c.document⟩)
      | .doctype => (c, [⟨.doctype t.doctypeValue t.location, c.document⟩]) := by
  unfold step stepM
  cases t.kind with
  | tagOpen => cases t.isEndTag <;> rfl
  | attrName | attrValue | tagClose | text | comment | doctype => rfl

/-- Taking in a token, without the ways to close. -/
theorem push_eq (v : Vocabulary) (t : Token) (c : Construction) :
    c.push v t =
      let later := c.start.1.step v t
      (later.1, c.start.2 ++ later.2) := rfl

end Construction

end HtmlLint
