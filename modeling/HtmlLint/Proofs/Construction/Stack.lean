import Mathlib.Data.List.Chain
import HtmlLint.Proofs.Construction.Attributes

/-!
# The stack of open elements

Whatever tokens have come, the root and the open elements are a path down the tree, they are all
that is not closed, and a start tag whose end has not come yet is that of the innermost of them:
`Construction.IsStacked`.

Elements are closed from the innermost on, by a step that does nothing where only the root is left.
This never happens: building a document by a step that fails there (`Construction.push?`,
`Construction.finish?`) never fails and gives the same (`push?_eq`, `finish?_eq`).  An end tag
closes something only if it finds its element among the open ones.  That the end of a start tag
finds something to close, and that this is the element of the tag, is due to the stack.
-/

namespace HtmlLint

/-- The second node is a child of the first: either one names the other. -/
def Document.IsChild (d : Document) (p i : NodeId) : Prop :=
  ∃ m n, d.get? p = some m ∧ d.get? i = some n ∧ i ∈ m.children ∧ n.parent = some p

/-! ## Every open element stands in the one around it -/

/-- Each open element has the one around it for its parent, and the outermost one the root. -/
def Stage.Linked (s : Stage) : Prop :=
  (s.openElements ++ [rootId]).IsChain fun i p => (s.document.get? i).bind Node.parent = some p

namespace Stage.Linked

variable {s t : Stage} {ms : List Moment}

/-- At the start nothing is open. -/
private theorem ofLength (length : Nat) : (Stage.ofLength length).Linked :=
  .singleton _

/-- Parents never change. -/
private theorem growsTo {ids : List NodeId} {d d' : Document} {new new' : Option Node}
    (h : (Stage.mk d ids new).Linked) (hd : d.GrowsTo d') : (Stage.mk d' ids new').Linked := by
  refine List.IsChain.imp (fun i p hparent => ?_) h
  obtain ⟨n, hn, hp⟩ := Option.bind_eq_some_iff.mp hparent
  rw [hd.parent_eq hn, hp]

/-- Every move keeps the open elements linked: a new one goes into the innermost, and the innermost
is closed first. -/
private theorem move (hm : Move s ms t) (hs : s.Sound) (h : s.Linked) : t.Linked := by
  have hgrows := hm.growsTo hs
  cases hm with
  | remark | announce => exact h
  | store | widen | text => exact h.growsTo hgrows
  | @close d id ids new kind location stop hk =>
    have hleft : (Stage.mk d ids new).Linked := List.IsChain.tail h
    exact hleft.growsTo hgrows
  | @place d ids n =>
    have hlater : (Stage.mk (d.adopt (ids.headD rootId) n) ids none).Linked := h.growsTo hgrows
    refine List.IsChain.cons hlater fun p hp => ?_
    -- the new element goes into the innermost of the others
    have hhead : ids.headD rootId = p := by
      cases ids with
      | nil => exact Option.some.inj hp
      | cons id ids => exact Option.some.inj hp
    rw [hs.upcoming_id, Document.get?_adopt_new hs.head_lt_size, hhead]
    rfl

/-- So does every run. -/
theorem run (hr : Run s ms t) (hs : s.Sound) (h : s.Linked) : t.Linked := by
  induction hr with
  | done s => exact h
  | move first _ ih => exact ih (hs.move first) (h.move first hs)

end Stage.Linked

namespace Construction

variable {v : Vocabulary} {c : Construction}

/-- The root and the open elements, outermost first, are a stack: each is a child of the one before
it, none occurs twice, and beyond the root they are the elements that are not closed.  A start tag
without end is that of the last one. -/
structure IsStacked (c : Construction) : Prop where
  root : c.openPath.head? = some rootId ∧
    ∃ n, c.document.get? rootId = some n ∧ n.kind = .root ∧ n.closed = none
  nodup : c.openPath.Nodup
  chain : c.openPath.IsChain c.document.IsChild
  mem_iff : ∀ i : NodeId, i ∈ c.openPath.tail ↔
    ∃ n, c.document.get? i = some n ∧ n.kind = .element ∧ n.closed = none
  pending : ∀ node last, c.pending = some (.opening node last) →
    c.openPath.getLast? = some node ∧ node ∈ c.openPath.tail

/-- In a tree a node is among the children of its parent. -/
private theorem IsStacked.of_linked (hready : c.Ready) (hgrown : c.stage.Grown)
    (hlinked : c.stage.Linked) : c.IsStacked where
  root := ⟨rfl, hready.sound.root_open⟩
  nodup := by
    refine List.nodup_cons.mpr ⟨fun hroot => ?_, List.pairwise_reverse.mpr ?_⟩
    · exact hready.sound.ne_root (List.mem_reverse.mp hroot) rfl
    · exact hready.sound.decreasing.imp fun hlt => Nat.ne_of_lt hlt
  chain := by
    have hpath : c.openPath = (c.openElements ++ [rootId]).reverse := by simp [openPath]
    rw [hpath, List.isChain_reverse]
    refine List.IsChain.imp (fun i p hparent => ?_) hlinked
    obtain ⟨n, hn, hp⟩ := Option.bind_eq_some_iff.mp hparent
    have hlt := Nat.lt_trans (hgrown.tree.parent_lt hn hp) (Document.lt_size_of_get? hn)
    obtain ⟨m, hm⟩ := Document.exists_get?_of_lt hlt
    exact ⟨m, n, hm, hn, (hgrown.tree.mem_children_iff hn hm).mpr hp, hp⟩
  mem_iff i := by
    rw [openPath, List.tail_cons, List.mem_reverse, ← Document.elementState?_eq_some]
    exact hready.sound.mem_iff i
  pending node last hpending := by
    obtain ⟨left, hleft⟩ := List.head?_eq_some_iff.mp (hready.pending_top node last hpending)
    have hpath : c.openPath = rootId :: left.reverse ++ [node] := by simp [openPath, hleft]
    rw [hpath]
    exact ⟨List.getLast?_concat, by simp⟩

/-- Taking in tokens is a run of moves, also where the first event is among its moments. -/
private theorem exists_run_takeIn (h : c.Ready) (v : Vocabulary) (ts : List Token) :
    ∃ ms, Run c.stage ms (takeIn v ts c).1.stage := by
  induction ts generalizing c with
  | nil => exact ⟨[], .done _⟩
  | cons t ts ih =>
    obtain ⟨ms, hlater⟩ := ih (h.start.step v t)
    have hfirst := step_run (v := v) h.start t
    rw [stage_start] at hfirst
    exact ⟨_, hfirst.append hlater⟩

/-- Whatever tokens are taken in, the stack is as it should be. -/
private theorem takeIn_isStacked (v : Vocabulary) (ts : List Token) (length : Nat) :
    (takeIn v ts (.ofLength length)).1.IsStacked := by
  have hready := Ready.ofLength length
  obtain ⟨ms, hrun⟩ := exists_run_takeIn hready v ts
  exact .of_linked (hready.takeIn v ts) ((Stage.Grown.ofLength length).run hrun hready.sound).1
    ((Stage.Linked.ofLength length).run hrun hready.sound)

/-! ## Closing never fails -/

/-- Take in one token, and fail where an element is to be closed and none is open. -/
def push? (v : Vocabulary) (t : Token) (c : Construction) : Option (Construction × List Moment) :=
  c.pushM closeCurrent? v t

/-- End the document, and fail where an element is to be closed and none is open. -/
def finish? (v : Vocabulary) (c : Construction) : Option (Document × List Moment) :=
  c.finishM closeCurrent? v

section Closes

variable {m : Type → Type} [Monad m] [LawfulMonad m] {close : Closer m}

/-- The start tag that waits for its end is that of an open element, so there is one to close. -/
private theorem finishTagM_eq (hclose : close.Closes) (h : c.Ready) (v : Vocabulary) (t : Token) :
    c.finishTagM close v t = pure (c.finishTag v t) := by
  rw [finishTag_eq, finishTagM]
  cases hp : c.pending with
  | none => rfl
  | some tag =>
    cases tag with
    | opening node last =>
      obtain ⟨left, hleft⟩ := List.head?_eq_some_iff.mp (h.pending_top node last hp)
      have hitself : c.finishOpening node t = _ := finishOpeningM_of_top closes_closeCurrent hleft t
      dsimp only
      rw [finishOpeningM_of_top hclose hleft, hitself]
      dsimp only
      split <;> rfl
    | closing name location =>
      dsimp only
      rw [closeTagM_eq hclose, closeTag_eq]
      split <;> rfl

/-- From a ready construction on, every way to close gives the same for one token. -/
private theorem stepM_eq (hclose : close.Closes) (h : c.Ready) (v : Vocabulary) (t : Token) :
    c.stepM close v t = pure (c.step v t) := by
  rw [step_eq, stepM]
  cases t.kind with
  | tagOpen =>
    dsimp only
    rw [openTagM_eq hclose, openTag_eq]
    split <;> rfl
  | tagClose =>
    dsimp only
    rw [finishTagM_eq hclose (h.storeLast none), pure_bind]
  | attrName | attrValue | text | comment | doctype => rfl

end Closes

/-- Every token finds what it is to close. -/
theorem push?_eq (h : c.Ready) (v : Vocabulary) (t : Token) : c.push? v t = some (c.push v t) := by
  rw [push?, pushM, stepM_eq closes_closeCurrent? h.start, push_eq]
  rfl

/-- The end of the source never finds the stack empty. -/
theorem finish?_eq (v : Vocabulary) (c : Construction) : c.finish? v = some (c.finish v) := by
  rw [finish?, finishM_eq closes_closeCurrent?, finish_eq]
  rfl

/-! ## The end of a start tag -/

/-- The elements that are closed at these moments, one after the other. -/
def closedAt (ms : List Moment) : List NodeId :=
  ms.filterMap fun m =>
    match m.event with
    | .tagClose id _ _ _ => some id
    | _ => none

/-- What is closed in two parts is closed in their order. -/
private theorem closedAt_append (ms later : List Moment) :
    closedAt (ms ++ later) = closedAt ms ++ closedAt later :=
  List.filterMap_append

/-- The first event closes nothing. -/
private theorem closedAt_start (c : Construction) : closedAt c.start.2 = [] := by
  simp only [start]
  split <;> rfl

/-- Storing an attribute closes nothing. -/
private theorem closedAt_storeLast (value : Option Token) (c : Construction) :
    closedAt (c.storeLast value).2 = [] := by
  simp only [storeLast]
  split <;> rfl

/-- And it opens nothing. -/
private theorem openElements_storeLast (value : Option Token) (c : Construction) :
    (c.storeLast value).1.openElements = c.openElements := by
  simp only [storeLast]
  split <;> rfl

/-- The end of the start tag of the innermost open element closes this element or none. -/
private theorem closedAt_finishOpening {node : NodeId} {left : List NodeId}
    (h : c.openElements = node :: left) (t : Token) :
    let isEmpty := (c.document.node node).void || t.isSelfClosing
    closedAt (c.finishOpening node t).2 = (if isEmpty then [node] else []) ∧
      (c.finishOpening node t).1.openElements = if isEmpty then left else c.openElements := by
  have hvoid : ((c.document.widen node t.location t.isSelfClosing).node node).void =
      (c.document.node node).void :=
    Document.void_node_modify fun _ => rfl
  rw [finishOpening_of_top h, ← hvoid]
  dsimp only
  split <;> exact ⟨rfl, rfl⟩

/-- So it is with the token that ends the tag. -/
private theorem closedAt_push (h : c.Ready) {node : NodeId} {last : Option PendingAttribute}
    (hpending : c.pending = some (.opening node last)) {t : Token} (hkind : t.kind = .tagClose) :
    let isEmpty := (c.document.node node).void || t.isSelfClosing
    closedAt (c.push v t).2 = (if isEmpty then [node] else []) ∧
      (c.push v t).1.openPath = if isEmpty then c.openPath.dropLast else c.openPath := by
  obtain ⟨left, hleft⟩ := List.head?_eq_some_iff.mp (h.pending_top node last hpending)
  -- the first event changes nothing that matters here
  obtain ⟨hstart, hstack, hdocument⟩ : c.start.1.pending = some (.opening node last) ∧
      c.start.1.openElements = c.openElements ∧ c.start.1.document = c.document := by
    simp only [start]
    split <;> exact ⟨hpending, rfl, rfl⟩
  -- nor does the last attribute
  obtain ⟨hwaiting, -⟩ := storeLast_of_opening hstart none
  have hopen := openElements_storeLast none c.start.1
  have hvoid := (storeLast_retains none c.start.1).1.void_node node
  obtain ⟨hclosed, helements⟩ := closedAt_finishOpening (hopen.trans (hstack.trans hleft)) t
  rw [hvoid, hdocument] at hclosed helements
  have hpush : c.push v t = (((c.start.1.storeLast none).1.finishOpening node t).1,
      c.start.2 ++
        ((c.start.1.storeLast none).2 ++
          ((c.start.1.storeLast none).1.finishOpening node t).2)) := by
    simp only [push_eq, step_eq, hkind, finishTag_eq, hwaiting]
  rw [hpush]
  refine ⟨?_, ?_⟩
  · rw [closedAt_append, closedAt_append, closedAt_start, closedAt_storeLast, hclosed]
    rfl
  · simp only [openPath, helements, hopen, hstack, hleft]
    split
    · rw [List.reverse_cons, ← List.cons_append, List.dropLast_concat]
    · rfl

end Construction

/-- Whatever tokens have come, the root and the open elements are a stack.  Neither the next token
nor the end of the source tries to close an element where none is open.  If a start tag is waiting
for its end, that end closes the element of this tag where it is void or the tag ends in `/>`, and
otherwise nothing. -/
theorem pushAll_keeps_stack {σ : Type} (v : Vocabulary) (observe : σ → Moment → σ) (ts : List Token)
    (length : Nat) (s : σ) :
    let c := (Construction.pushAll v observe ts (.ofLength length) s).1
    c.IsStacked ∧ (∀ t, c.push? v t = some (c.push v t)) ∧ c.finish? v = some (c.finish v) ∧
    ∀ node last, c.pending = some (.opening node last) → ∀ t : Token, t.kind = .tagClose →
      let isEmpty := (c.document.node node).void || t.isSelfClosing
      Construction.closedAt (c.push v t).2 = (if isEmpty then [node] else []) ∧
        (c.push v t).1.openPath = if isEmpty then c.openPath.dropLast else c.openPath := by
  have hready := (Construction.Ready.ofLength length).takeIn v ts
  simp only [Construction.pushAll_eq_foldl]
  exact ⟨Construction.takeIn_isStacked v ts length, Construction.push?_eq hready v,
    Construction.finish?_eq v _,
    fun node last hpending t hkind => Construction.closedAt_push hready hpending hkind⟩

/-- Three start tags without ends.  The second one closes the item of the first, whose end has not
come.  The end of a tag that comes after them closes the line break and leaves the second item
open. -/
theorem pushAll_keeps_stack_items :
    let v : Vocabulary := ⟨.ofList [("br", { (default : ElementModel) with void := true }),
      ("li", { (default : ElementModel) with implicitClosed := ["li"] })]⟩
    let ts : List Token := ["<li", "<li", "<br"].map fun text => ⟨.tagOpen, text, default⟩
    let c := (Construction.pushAll v (fun (seen : Nat) _ => seen + 1) ts (.ofLength 9) 0).1
    let last : Token := ⟨.tagClose, ">", default⟩
    c.IsStacked ∧ c.openPath = [0, 2, 3] ∧ c.pending = some (.opening 3 none) ∧
      c.push? v last = some (c.push v last) ∧ c.finish? v = some (c.finish v) ∧
      Construction.closedAt (c.push v last).2 = [3] ∧ (c.push v last).1.openPath = [0, 2] := by
  intro v ts c last
  obtain ⟨hpath, hpending, hvoid⟩ : c.openPath = [0, 2, 3] ∧ c.pending = some (.opening 3 none) ∧
      ((c.document.node 3).void || last.isSelfClosing) = true := by
    decide +kernel
  obtain ⟨hstacked, hpush, hfinish, hend⟩ :=
    pushAll_keeps_stack v (fun (seen : Nat) _ => seen + 1) ts 9 0
  obtain ⟨hclosed, hleft⟩ := hend 3 none hpending last rfl
  -- `br` is void, so the end of its start tag closes it
  rw [if_pos hvoid] at hclosed hleft
  refine ⟨hstacked, hpath, hpending, hpush last, hfinish, hclosed, ?_⟩
  rw [hleft]
  exact congrArg List.dropLast hpath

end HtmlLint
