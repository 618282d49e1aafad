import HtmlLint.Document.Construction
import HtmlLint.Proofs.Document.Nodes

/-!
# The moves of a construction

Whatever token comes, a construction changes its document in one of seven ways.  `Move` lists them,
each with the moments it shows, and `Run` chains moves.  A property of every construction thus needs
to be proved for seven moves only; `Run.invariant` takes it from there.

A new element is made before the elements that it ends are closed.  Between the two it is not in the
tree: a `Stage` keeps it apart from the document as `upcoming`, and only observers see it there.

The first property proved this way is `Stage.Sound`: the open elements of a stage are exactly the
elements of its document that are not closed, each younger than the one around it.
-/

namespace HtmlLint

/-- The document with a node beside the tree, if there is one. -/
def Document.showing (d : Document) : Option Node → Document
  | none => d
  | some n => d.push n

/-- The nodes of the tree are the same whether or not there is a node beside it. -/
theorem Document.get?_showing_of_lt {d : Document} {i : Nat} (hi : i < d.size) (new : Option Node) :
    (d.showing new).get? i = d.get? i := by
  cases new with
  | none => rfl
  | some n => exact get?_push_of_lt hi

/-- The document once it is known that nothing follows: the root ends with the source. -/
def Document.ended (d : Document) : Document :=
  d.modify rootId fun n => { n with endOffset := some d.sourceLength }

/-- The document in which the start tag of an element goes up to the end of a slice. -/
def Document.widen (d : Document) (id : NodeId) (l : Location) (selfClosed : Bool) : Document :=
  d.modify id fun n => { n with location := n.location.extendTo l, selfClosed := selfClosed }

/-- A point in the making of a document. -/
structure Stage where
  /-- the nodes that have their place in the tree -/
  document : Document
  /-- the open elements, innermost first -/
  openElements : List NodeId
  /-- the element that is made and has no place yet -/
  upcoming : Option Node

namespace Stage

/-- The stage of a document of which nothing has been read. -/
def ofLength (sourceLength : Nat) : Stage :=
  ⟨.ofLength sourceLength, [], none⟩

end Stage

/-- The event tells something about the source and leaves the document as it is; a directive stands
inside the current node. -/
def Event.IsRemark (current : NodeId) : Event → Prop
  | .parseError .. => True
  | .doctype .. => True
  | .invalidDirective .. => True
  | .directive _ _ parent _ => parent = current
  | _ => False

/-- A new element. -/
def Node.newElement (id : NodeId) (tag : String) (location : Location) (foreign void : Bool) :
    Node :=
  { Node.fresh id .element tag location with foreign := foreign, void := void }

/-- A new run of text. -/
def Node.newText (id : NodeId) (content : String) (location : Location) (foreign : Bool) : Node :=
  { Node.fresh id (.text content) "" location with
    foreign := foreign, endOffset := some location.stop }

/-- One change of a construction, with the moments that an observer sees. -/
inductive Move : Stage → List Moment → Stage → Prop where
  /-- something is said about the source -/
  | remark {d : Document} {ids : List NodeId} {e : Event} (he : e.IsRemark (ids.headD rootId)) :
      Move ⟨d, ids, none⟩ [⟨e, d⟩] ⟨d, ids, none⟩
  /-- the current element gets an attribute -/
  | store {d : Document} {id : NodeId} {ids : List NodeId} (a : Attribute) :
      Move ⟨d, id :: ids, none⟩ [⟨.attr id a, d⟩] ⟨d.setAttribute id a, id :: ids, none⟩
  /-- the start tag of the current element ends -/
  | widen {d : Document} {id : NodeId} {ids : List NodeId} (l : Location) (selfClosed : Bool) :
      Move ⟨d, id :: ids, none⟩ [] ⟨d.widen id l selfClosed, id :: ids, none⟩
  /-- the current node gets a run of text -/
  | text {d : Document} {ids : List NodeId} (content : String) (location : Location)
      (foreign : Bool) : Move ⟨d, ids, none⟩ []
        ⟨d.adopt (ids.headD rootId) (.newText d.size content location foreign), ids, none⟩
  /-- an element is made -/
  | announce {d : Document} {ids : List NodeId} (tag : String) (location : Location)
      (foreign void : Bool) :
      Move ⟨d, ids, none⟩ [] ⟨d, ids, some (.newElement d.size tag location foreign void)⟩
  /-- the current element is closed, implicitly by the upcoming element if there is one -/
  | close {d : Document} {id : NodeId} {ids : List NodeId} {new : Option Node} {kind : CloseKind}
      (location : Location) (stop : Nat) (hk : new.isSome → kind = .implicit) :
      Move ⟨d, id :: ids, new⟩
        [⟨.tagClose id (new.map Node.id) kind location, (d.close id kind stop).showing new⟩,
          ⟨.elementReady id location, (d.close id kind stop).showing new⟩]
        ⟨d.close id kind stop, ids, new⟩
  /-- the upcoming element gets its place -/
  | place {d : Document} {ids : List NodeId} {n : Node} :
      Move ⟨d, ids, some n⟩ [⟨.tagOpen n.id n.location, d.adopt (ids.headD rootId) n⟩]
        ⟨d.adopt (ids.headD rootId) n, n.id :: ids, none⟩

/-- Any number of moves. -/
inductive Run : Stage → List Moment → Stage → Prop where
  | done (s : Stage) : Run s [] s
  | move {s t u : Stage} {ms later : List Moment} (first : Move s ms t) (rest : Run t later u) :
      Run s (ms ++ later) u

namespace Run

variable {s t u : Stage} {ms later : List Moment}

/-- One move is a run. -/
theorem of_move (h : Move s ms t) : Run s ms t := by
  have := Run.move h (.done t)
  rwa [List.append_nil] at this

/-- A run may go on. -/
theorem append (h : Run s ms t) (h' : Run t later u) : Run s (ms ++ later) u := by
  induction h with
  | done s => exact h'
  | move first _ ih =>
    rw [List.append_assoc]
    exact .move first (ih h')

/-- What every move keeps, every run keeps; the property may speak of the moments so far. -/
theorem invariant {P : List Moment → Stage → Prop}
    (hmove : ∀ {before ms : List Moment} {s t : Stage}, Move s ms t → P before s →
      P (before ++ ms) t)
    (h : Run s ms t) (before : List Moment) (h0 : P before s) : P (before ++ ms) t := by
  induction h generalizing before with
  | done s => rwa [List.append_nil]
  | move first _ ih =>
    rw [← List.append_assoc]
    exact ih _ (hmove first h0)

/-- The length of the source is known from the start. -/
theorem sourceLength_eq (h : Run s ms t) : t.document.sourceLength = s.document.sourceLength := by
  induction h with
  | done s => rfl
  | move first _ ih => rw [ih]; cases first <;> rfl

end Run

/-! ## Open elements -/

/-- How the node was closed, if it is an element: `some none` for an open element. -/
def Node.elementState? (n : Node) : Option (Option CloseKind) :=
  if n.kind = .element then some n.closed else none

namespace Document

/-- How the element of this number was closed; `some none` if it is open, `none` if there is no such
element. -/
def elementState? (d : Document) (i : NodeId) : Option (Option CloseKind) :=
  (d.get? i).bind Node.elementState?

/-- The node of this number is an element that is not closed. -/
def IsOpen (d : Document) (i : NodeId) : Prop :=
  d.elementState? i = some none

/-- The state of an element is how it was closed, if it was. -/
theorem elementState?_eq_some {d : Document} {i : Nat} {state : Option CloseKind} :
    d.elementState? i = some state ↔ ∃ n, d.get? i = some n ∧ n.kind = .element ∧
    n.closed = state := by
  simp only [elementState?, Option.bind_eq_some_iff, Node.elementState?,
    Option.ite_none_right_eq_some, Option.some.injEq]

/-- Only nodes that are there have a state. -/
private theorem lt_size_of_elementState? {d : Document} {i : Nat} {state : Option CloseKind}
    (h : d.elementState? i = some state) : i < d.size := by
  obtain ⟨n, hn, -⟩ := elementState?_eq_some.mp h
  exact lt_size_of_get? hn

/-- A change of other fields keeps all states. -/
private theorem elementState?_modify {d : Document} {j : Nat} {f : Node → Node}
    (hk : ∀ n, (f n).kind = n.kind) (hc : ∀ n, (f n).closed = n.closed) (i : Nat) :
    (d.modify j f).elementState? i = d.elementState? i := by
  simp only [elementState?, get?_modify]
  split
  · cases d.get? i <;> simp [Node.elementState?, hk, hc]
  · rfl

/-- So does an attribute. -/
theorem elementState?_setAttribute (d : Document) (j : Nat) (a : Attribute) (i : Nat) :
    (d.setAttribute j a).elementState? i = d.elementState? i := by
  rw [setAttribute, elementState?_modify] <;> intro n <;> rfl

/-- So does a wider start tag. -/
theorem elementState?_widen (d : Document) (j : Nat) (l : Location) (selfClosed : Bool) (i : Nat) :
    (d.widen j l selfClosed).elementState? i = d.elementState? i := by
  rw [widen, elementState?_modify] <;> intro n <;> rfl

/-- So does the end of the source. -/
theorem elementState?_ended (d : Document) (i : Nat) :
    d.ended.elementState? i = d.elementState? i := by
  rw [ended, elementState?_modify] <;> intro n <;> rfl

/-- Closing an element changes its own state and no other. -/
theorem elementState?_close (d : Document) (j : Nat) (k : CloseKind) (stop i : Nat) :
    (d.close j k stop).elementState? i =
      if j = i then (d.elementState? i).map fun _ => some k else d.elementState? i := by
  simp only [elementState?, get?_close]
  split
  · cases d.get? i with
    | none => rfl
    | some n =>
      simp only [Option.map_some, Option.bind_some, Node.elementState?]
      split <;> rfl
  · rfl

/-- A new node brings its own state. -/
theorem elementState?_adopt {d : Document} {p : Nat} (hp : p < d.size) (n : Node) (i : Nat) :
    (d.adopt p n).elementState? i = if i = d.size then n.elementState? else d.elementState? i := by
  simp only [elementState?]
  split
  · rename_i hi
    rw [hi, get?_adopt_new hp]
    rfl
  · rename_i hi
    by_cases hip : i = p
    · subst hip
      obtain ⟨m, hm⟩ := exists_get?_of_lt hp
      rw [get?_adopt_parent hm, hm]
      rfl
    · rw [get?_adopt_of_ne hip hi]

/-- There is no node with the next number yet. -/
theorem elementState?_size (d : Document) : d.elementState? d.size = none := by
  simp [elementState?, get?_eq_none_iff.mpr (Nat.le_refl d.size)]

end Document

/-- The root is never closed, the open elements of a stage are those of its document, each younger
than the one around it, and the upcoming element, if there is one, is new. -/
structure Stage.Sound (s : Stage) : Prop where
  root_open : ∃ n, s.document.get? rootId = some n ∧ n.kind = .root ∧ n.closed = none
  mem_iff : ∀ i : Nat, i ∈ s.openElements ↔ s.document.IsOpen i
  decreasing : s.openElements.Pairwise (· > ·)
  upcoming_eq : ∀ n, s.upcoming = some n →
    ∃ tag location foreign void, n = .newElement s.document.size tag location foreign void

namespace Stage.Sound

variable {s t : Stage} {ms : List Moment}

/-- Open elements are there. -/
theorem lt_size (h : s.Sound) {i : Nat} (hi : i ∈ s.openElements) : i < s.document.size :=
  Document.lt_size_of_elementState? ((h.mem_iff i).mp hi)

/-- The root is never an open element. -/
theorem ne_root (h : s.Sound) {i : Nat} (hi : i ∈ s.openElements) : i ≠ rootId := by
  rintro rfl
  obtain ⟨n, hn, hkind, -⟩ := Document.elementState?_eq_some.mp ((h.mem_iff rootId).mp hi)
  obtain ⟨m, hm, hroot, -⟩ := h.root_open
  rw [hn] at hm
  cases hm
  rw [hkind] at hroot
  cases hroot

/-- There is always a node for new nodes to go into. -/
theorem head_lt_size {d : Document} {ids : List NodeId} {new : Option Node}
    (h : (Stage.mk d ids new).Sound) : ids.headD rootId < d.size := by
  cases ids with
  | nil => exact d.size_pos
  | cons id ids => exact h.lt_size (List.mem_cons_self ..)

/-- The upcoming element has the next number. -/
theorem upcoming_id {d : Document} {ids : List NodeId} {n : Node}
    (h : (Stage.mk d ids (some n)).Sound) : n.id = d.size := by
  obtain ⟨tag, location, foreign, void, hn⟩ := h.upcoming_eq n rfl
  rw [hn]
  rfl

/-- At the start only the root is there. -/
theorem ofLength (length : Nat) : (Stage.ofLength length).Sound where
  root_open := ⟨_, Document.get?_rootId _, rfl, rfl⟩
  mem_iff i := by
    simp only [Stage.ofLength, List.not_mem_nil, false_iff]
    intro hopen
    obtain ⟨n, hn, hkind, -⟩ := Document.elementState?_eq_some.mp hopen
    have hi : i < 1 := Document.lt_size_of_get? hn
    have hroot := Document.get?_rootId (.ofLength length)
    obtain rfl : i = rootId := by simp only [rootId]; omega
    rw [hn] at hroot
    cases hroot
    cases hkind
  decreasing := .nil
  upcoming_eq := by simp [Stage.ofLength]

/-- A change of a node that is neither about its kind nor about its closing keeps a stage sound. -/
private theorem modify {d : Document} {ids : List NodeId} (h : (Stage.mk d ids none).Sound)
    {j : Nat} {f : Node → Node} (hk : ∀ n, (f n).kind = n.kind)
    (hc : ∀ n, (f n).closed = n.closed) :
    (Stage.mk (d.modify j f) ids none).Sound where
  root_open := by
    obtain ⟨n, hn, hroot, hopen⟩ := h.root_open
    simp only [Document.get?_modify]
    split
    · exact ⟨f n, by simp [hn], by rw [hk, hroot], by rw [hc, hopen]⟩
    · exact ⟨n, hn, hroot, hopen⟩
  mem_iff i := by
    show i ∈ ids ↔ (d.modify j f).elementState? i = some none
    rw [Document.elementState?_modify hk hc]
    exact h.mem_iff i
  decreasing := h.decreasing
  upcoming_eq := by simp

/-- The root stays what it is when a node gets its place. -/
private theorem root_adopt {d : Document} {ids : List NodeId} {new : Option Node}
    (h : (Stage.mk d ids new).Sound) (n : Node) :
    ∃ m, (d.adopt (ids.headD rootId) n).get? rootId = some m ∧ m.kind = .root ∧
    m.closed = none := by
  obtain ⟨m, hm, hroot⟩ := h.root_open
  by_cases hr : rootId = ids.headD rootId
  · rw [← hr]
    exact ⟨_, Document.get?_adopt_parent hm n, hroot⟩
  · have hs : rootId ≠ d.size := Nat.ne_of_lt (Document.lt_size_of_get? hm)
    exact ⟨m, by rw [Document.get?_adopt_of_ne hr hs]; exact hm, hroot⟩

/-- Every move leads from a sound stage to a sound stage. -/
theorem move (hm : Move s ms t) (h : s.Sound) : t.Sound := by
  cases hm with
  | remark => exact h
  | store a => exact h.modify (fun _ => rfl) (fun _ => rfl)
  | widen l b => exact h.modify (fun _ => rfl) (fun _ => rfl)
  | @text d ids content location foreign =>
    refine ⟨h.root_adopt _, fun i => ?_, h.decreasing, by simp⟩
    -- a text is not an element, so the open elements are the same
    show i ∈ ids ↔ (d.adopt _ _).elementState? i = some none
    rw [Document.elementState?_adopt h.head_lt_size]
    split
    · rename_i hi
      rw [hi, h.mem_iff d.size]
      simp [Document.IsOpen, Document.elementState?_size, Node.newText, Node.fresh,
        Node.elementState?]
    · exact h.mem_iff i
  | announce tag location foreign void =>
    refine ⟨h.root_open, h.mem_iff, h.decreasing, fun n hn => ?_⟩
    cases hn
    exact ⟨tag, location, foreign, void, rfl⟩
  | @close d id ids new kind location stop hk =>
    -- the innermost element leaves the list and the open elements at once
    have hpair := List.pairwise_cons.mp h.decreasing
    refine ⟨?_, fun i => ?_, hpair.2, fun n hn => ?_⟩
    · obtain ⟨m, hm, hroot⟩ := h.root_open
      have hne : id ≠ rootId := h.ne_root (List.mem_cons_self ..)
      exact ⟨m, by rw [Document.get?_close, if_neg hne]; exact hm, hroot⟩
    · show i ∈ ids ↔ (d.close id kind stop).elementState? i = some none
      rw [Document.elementState?_close]
      split
      · rename_i hi
        subst hi
        have : id ∉ ids := fun hi => Nat.lt_irrefl _ (hpair.1 id hi)
        simp [this]
      · rename_i hne
        have hiff := h.mem_iff i
        simp only [List.mem_cons, Ne.symm hne, false_or] at hiff
        exact hiff
    · simpa using h.upcoming_eq n hn
  | @place d ids n =>
    obtain ⟨tag, location, foreign, void, hn⟩ := h.upcoming_eq n rfl
    have hid := h.upcoming_id
    refine ⟨h.root_adopt _, fun i => ?_, ?_, by simp⟩
    · -- the new element is open from now on
      show i ∈ n.id :: ids ↔ (d.adopt _ _).elementState? i = some none
      rw [Document.elementState?_adopt h.head_lt_size, hid]
      split
      · rename_i hi
        simp [hi, hn, Node.newElement, Node.fresh, Node.elementState?]
      · rename_i hi
        rw [List.mem_cons, or_iff_right hi]
        exact h.mem_iff i
    · -- the new element is the youngest
      refine List.pairwise_cons.mpr ⟨fun i hi => ?_, h.decreasing⟩
      rw [hid]
      exact h.lt_size hi

/-- Every run keeps the stage sound, move by move. -/
theorem run (hr : Run s ms t) (h : s.Sound) : t.Sound :=
  hr.invariant (P := fun _ s => s.Sound) (fun hm h => h.move hm) [] h

end Stage.Sound

end HtmlLint
