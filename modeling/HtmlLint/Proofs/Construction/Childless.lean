import HtmlLint.Proofs.Construction.Tags

/-!
# Nodes without children

Text has no children, and neither has an element that is void or that its own start tag closes.
This holds in every document that an observer sees and in the final one: `atoms_childless`.

No step of a construction looks at the node that it adds a child to.  What keeps nodes out of a void
element is that the element is open only within its start tag (`Construction.Tidy`), together with
the order of the tokens of a source: between the beginning and the end of a tag there are only
attributes (`Token.TileFrom`).
-/

namespace HtmlLint

/-- The node is one that has no content: text, a void element, or an element that its own start tag
closes. -/
def Node.IsAtom (n : Node) : Prop :=
  n.void = true ∨ n.closed = some .void ∨ n.closed = some .selfClosed ∨
    ∃ content, n.kind = .text content

/-- No atom has a child. -/
def Document.AtomsChildless (d : Document) : Prop :=
  ∀ (i : Nat) (n : Node), d.get? i = some n → n.IsAtom → n.children = []

/-! ## Changes of documents -/

namespace Document.AtomsChildless

variable {d : Document}

/-- The root has no children at the start, and is no atom. -/
private theorem ofLength (length : Nat) : (Document.ofLength length).AtomsChildless := by
  intro i n hn _
  have hi : i < 1 := lt_size_of_get? hn
  obtain rfl : i = 0 := by omega
  cases hn
  rfl

/-- A new node comes without children. -/
private theorem push (h : d.AtomsChildless) (new : Node) (hnew : new.children = []) :
    (d.push new).AtomsChildless := by
  intro i n hn hatom
  rw [get?_push] at hn
  split at hn
  · cases hn
    exact hnew
  · exact h i n hn hatom

/-- A change of one node, if that has no children or is no atom then. -/
private theorem modify (h : d.AtomsChildless) {j : Nat} {f : Node → Node}
    (hf : ∀ n, d.get? j = some n → (f n).IsAtom → (f n).children = []) :
    (d.modify j f).AtomsChildless := by
  intro i n hn hatom
  rw [get?_modify] at hn
  split at hn
  · rename_i hij
    subst hij
    obtain ⟨o, ho, rfl⟩ := Option.map_eq_some_iff.mp hn
    exact hf o ho hatom
  · exact h i n hn hatom

/-- A change that neither gives a node children nor makes an atom of it. -/
private theorem modify_of_imp (h : d.AtomsChildless) (j : Nat) {f : Node → Node}
    (hatom : ∀ n, (f n).IsAtom → n.IsAtom) (hchildren : ∀ n, (f n).children = n.children) :
    (d.modify j f).AtomsChildless := by
  apply h.modify
  intro n hn hf
  rw [hchildren]
  exact h j n hn (hatom n hf)

/-- A node that is no atom may get children. -/
private theorem appendChild (h : d.AtomsChildless) {p : Nat} {m : Node} (hm : d.get? p = some m)
    (hp : ¬ m.IsAtom) (child : Nat) :
    (d.appendChild p child).AtomsChildless := by
  have hchild : (d.modify child fun n => { n with parent := some p }).AtomsChildless :=
    h.modify_of_imp child (fun _ => id) fun _ => rfl
  apply hchild.modify
  intro n hn hatom
  -- the new parent may be the child itself, of which only its parent changes
  rw [get?_modify] at hn
  split at hn
  · rw [hm] at hn
    cases hn
    exact absurd hatom hp
  · rw [hm] at hn
    cases hn
    exact absurd hatom hp

/-- An element that is closed by something else than its start tag is no atom for that. -/
private theorem close (h : d.AtomsChildless) {kind : CloseKind} (hvoid : kind ≠ .void)
    (hself : kind ≠ .selfClosed) (j stop : Nat) :
    (d.close j kind stop).AtomsChildless := by
  apply h.modify_of_imp
  · intro n hatom
    obtain hatom | hatom | hatom | hatom := hatom
    · exact .inl hatom
    · exact absurd (Option.some.inj hatom) hvoid
    · exact absurd (Option.some.inj hatom) hself
    · exact .inr (.inr (.inr hatom))
  · exact fun _ => rfl

end Document.AtomsChildless

/-- What keeps the nodes keeps which of them are void. -/
theorem Document.Retains.void_node {d d' : Document} (h : d.Retains d') (i : Nat) :
    (d'.node i).void = (d.node i).void :=
  (Matches.node h i).void_eq.symm

/-- A new node does not change which of the others are void. -/
private theorem Document.void_node_adopt {d : Document} {i : Nat} (hi : i < d.size) (p : Nat)
    (new : Node) :
    ((d.adopt p new).node i).void = (d.node i).void := by
  have hlt : i < (d.adopt p new).size := by
    rw [size_adopt]
    omega
  obtain ⟨n, hn⟩ := exists_get?_of_lt hlt
  obtain ⟨o, ho, rfl⟩ := exists_of_get?_adopt hn (by omega)
  rw [node_of_get? hn, node_of_get? ho]

/-- Neither does a change of other fields. -/
theorem Document.void_node_modify {d : Document} {i j : Nat} {f : Node → Node}
    (hf : ∀ n, (f n).void = n.void) :
    ((d.modify j f).node i).void = (d.node i).void :=
  (Matches.modify (R := fun n n' => n'.void = n.void) (fun _ => rfl) hf).node i

/-- A change of other fields leaves the children alone. -/
private theorem Document.children_node_modify {d : Document} {i j : Nat} {f : Node → Node}
    (hf : ∀ n, (f n).children = n.children) :
    ((d.modify j f).node i).children = (d.node i).children :=
  (Matches.modify (R := fun n n' => n'.children = n.children) (fun _ => rfl) hf).node i

/-- A node that can get children is not closed and is no text. -/
private theorem Stage.Sound.exists_open {s : Stage} (h : s.Sound) {id : Nat}
    (hid : id ∈ rootId :: s.openElements) :
    ∃ n, s.document.get? id = some n ∧ n.closed = none ∧ ∀ content, n.kind ≠ .text content := by
  cases List.mem_cons.mp hid with
  | inl hroot =>
    obtain ⟨n, hn, hkind, hclosed⟩ := h.root_open
    exact ⟨n, hroot ▸ hn, hclosed, by simp [hkind]⟩
  | inr hmem =>
    obtain ⟨n, hn, hkind, hclosed⟩ := Document.elementState?_eq_some.mp ((h.mem_iff id).mp hmem)
    exact ⟨n, hn, hclosed, by simp [hkind]⟩

namespace Construction

variable {v : Vocabulary} {c : Construction}

/-! ## Closing elements -/

/-- Closing elements for other reasons makes no atoms. -/
private theorem closeAll_atomsChildless (how : Node → Closing)
    (hhow : ∀ n, (how n).kind ≠ .void ∧ (how n).kind ≠ .selfClosed) (ids : List NodeId)
    {d : Document} (h : d.AtomsChildless) : (closeAll how ids d).1.AtomsChildless ∧
      ∀ m ∈ (closeAll how ids d).2, m.document.AtomsChildless := by
  induction ids generalizing d with
  | nil => exact ⟨h, by simp [closeAll]⟩
  | cons id ids ih =>
    -- no kind of closing used here makes an element an atom
    have hclosed : (d.close id (how (d.node id)).kind (how (d.node id)).stop).AtomsChildless :=
      h.close (hhow _).1 (hhow _).2 id _
    obtain ⟨hd, hms⟩ := ih hclosed
    refine ⟨hd, ?_⟩
    intro m hm
    rw [closeAll, List.mem_append] at hm
    cases hm with
    | inl hfirst =>
      simp only [closeOne, List.mem_append, List.mem_map, List.mem_cons, List.not_mem_nil,
        or_false] at hfirst
      obtain ⟨e, -, rfl⟩ | rfl | rfl := hfirst
      · exact h
      · exact hclosed
      · exact hclosed
    | inr hlater => exact hms m hlater

/-- So an end tag makes none. -/
private theorem closeTag_atomsChildless (h : c.document.AtomsChildless) (name : String)
    (location : Location) :
    (c.closeTag v name location).1.document.AtomsChildless ∧
      ∀ m ∈ (c.closeTag v name location).2, m.document.AtomsChildless := by
  cases hfound : c.openElements.dropWhile fun id => !isCalled name (c.document.node id) with
  | nil =>
    simp only [closeTag_eq, hfound]
    exact ⟨h, by simpa using h⟩
  | cons found left =>
    rw [closeTag_of_found hfound]
    obtain ⟨hd, hms⟩ := closeAll_atomsChildless (closingInside v name location)
      (fun _ => by simp [closingInside, closingWithoutEnd])
      (c.openElements.takeWhile fun id => !isCalled name (c.document.node id)) h
    obtain ⟨hd', hms'⟩ :=
      closeAll_atomsChildless (fun _ => ⟨none, .explicit, none, location, location.stop⟩)
      (fun _ => by simp) [found] hd
    refine ⟨hd', List.forall_mem_append.mpr ⟨hms, ?_⟩⟩
    intro m hm
    exact hms' m (List.mem_append_left _ hm)

/-! ## One token -/

/-- No atom has a child, and a void element is open only within its start tag, in which an element
has no children. -/
structure Tidy (c : Construction) : Prop where
  childless : c.document.AtomsChildless
  pending_of_void : ∀ id ∈ rootId :: c.openElements, (c.document.node id).void = true →
    ∃ last, c.pending = some (.opening id last)
  children_of_pending : ∀ id last, c.pending = some (.opening id last) →
    (c.document.node id).children = []

/-- The node around the elements that are left open is open, and is none of those that are
closed. -/
private theorem Ready.headD_dropWhile (h : c.Ready) (p : NodeId → Bool) :
    (c.openElements.dropWhile p).headD rootId ∈ rootId :: c.openElements ∧
      (c.openElements.dropWhile p).headD rootId ∉ c.openElements.takeWhile p := by
  have hdecreasing : c.openElements.Pairwise (· > ·) := h.sound.decreasing
  rw [← List.takeWhile_append_dropWhile (p := p) (l := c.openElements),
    List.pairwise_append] at hdecreasing
  refine ⟨headD_dropWhile_mem p c, ?_⟩
  cases hleft : c.openElements.dropWhile p with
  | nil =>
    intro hmem
    exact h.sound.ne_root ((List.takeWhile_sublist _).subset hmem) rfl
  | cons top left =>
    have htop : top ∈ c.openElements.dropWhile p := by
      rw [hleft]
      exact List.mem_cons_self ..
    intro hmem
    exact Nat.lt_irrefl _ (hdecreasing.2.2 top hmem top htop)

namespace Tidy

/-- At the start nothing is open. -/
private theorem ofLength (length : Nat) : (Construction.ofLength length).Tidy where
  childless := .ofLength length
  pending_of_void := by
    intro id hid hvoid
    obtain rfl : id = rootId := by simpa [Construction.ofLength] using hid
    cases hvoid
  children_of_pending := by simp [Construction.ofLength]

/-- Outside of start tags no void element is open. -/
private theorem void_eq_false (h : c.Tidy) (hp : ∀ id last, c.pending ≠ some (.opening id last))
    {id : NodeId} (hid : id ∈ rootId :: c.openElements) : (c.document.node id).void = false := by
  cases hvoid : (c.document.node id).void with
  | false => rfl
  | true =>
    obtain ⟨last, hlast⟩ := h.pending_of_void id hid hvoid
    exact absurd hlast (hp id last)

/-- Within a start tag no void element is open but its own. -/
private theorem eq_of_void (h : c.Tidy) {node id : NodeId} {last : Option PendingAttribute}
    (hp : c.pending = some (.opening node last)) (hid : id ∈ rootId :: c.openElements)
    (hvoid : (c.document.node id).void = true) : id = node := by
  obtain ⟨last', hlast⟩ := h.pending_of_void id hid hvoid
  rw [hp] at hlast
  cases hlast
  rfl

/-- Outside of tags the nodes that can get children are no atoms. -/
private theorem exists_not_isAtom (h : c.Tidy) (hready : c.Ready) (hp : c.pending = none)
    {id : NodeId} (hid : id ∈ rootId :: c.openElements) :
    ∃ n, c.document.get? id = some n ∧ ¬ n.IsAtom := by
  obtain ⟨n, hn, hclosed, htext⟩ := hready.sound.exists_open hid
  have hvoid := h.void_eq_false (by simp [hp]) hid
  rw [show c.document.node id = n from Document.node_of_get? hn] at hvoid
  refine ⟨n, hn, ?_⟩
  simp [Node.IsAtom, hvoid, hclosed, htext]

/-- Where no tag has begun and nothing that is open is void. -/
private theorem of_pending_eq_none (hchildless : c.document.AtomsChildless) (hp : c.pending = none)
    (hvoid : ∀ id ∈ rootId :: c.openElements, (c.document.node id).void = false) : c.Tidy where
  childless := hchildless
  pending_of_void := by
    intro id hid htrue
    rw [hvoid id hid] at htrue
    cases htrue
  children_of_pending := by simp [hp]

/-- Attributes do not matter. -/
private theorem storeLast (h : c.Tidy) (value : Option Token) :
    (c.storeLast value).1.Tidy ∧ ∀ m ∈ (c.storeLast value).2, m.document.AtomsChildless := by
  simp only [Construction.storeLast]
  split
  · rename_i node last hp
    -- neither what is void nor what has children changes with an attribute
    have hsame : ∀ a id, ((c.document.setAttribute node a).node id).void =
        (c.document.node id).void :=
      fun _ _ => Document.void_node_modify fun _ => rfl
    have hchildren : ∀ a, ((c.document.setAttribute node a).node node).children =
        (c.document.node node).children :=
      fun _ => Document.children_node_modify fun _ => rfl
    refine ⟨⟨h.childless.modify_of_imp node (fun _ => id) fun _ => rfl, ?_, ?_⟩,
      by simpa using h.childless⟩
    · intro id hid hvoid
      rw [hsame] at hvoid
      exact ⟨none, by rw [h.eq_of_void hp hid hvoid]⟩
    · intro id last' hlast
      cases hlast
      show ((c.document.setAttribute node _).node node).children = []
      rw [hchildren]
      exact h.children_of_pending _ _ hp
  · exact ⟨h, by simp⟩

/-- Neither does what waits for a value. -/
private theorem expectValue (h : c.Tidy) (t : Token) : (c.expectValue t).Tidy := by
  simp only [Construction.expectValue]
  split
  · rename_i node last hp
    refine ⟨h.childless, ?_, ?_⟩
    · intro id hid hvoid
      exact ⟨_, by rw [h.eq_of_void hp hid hvoid]⟩
    · intro id last' hlast
      cases hlast
      exact h.children_of_pending _ _ hp
  · exact h

/-- Outside of tags no void element is open, so that a new element goes into none. -/
private theorem openTag (h : c.Tidy) (hready : c.Ready) (hp : c.pending = none) (t : Token) :
    (c.openTag v t).1.Tidy ∧ ∀ m ∈ (c.openTag v t).2, m.document.AtomsChildless := by
  have hretains := openTag_retains v t c
  -- closing the ended elements leaves every other node alone, the parent among them
  have hget := get?_closeAll (closingBefore t c.document.size) (fun _ => rfl) (fun _ => rfl)
    (c.openElements.takeWhile (isEndedBy v t c)) (c.document.push (newElement v t c))
  obtain ⟨hd, hms⟩ := closeAll_atomsChildless (closingBefore t c.document.size)
    (fun _ => by simp [closingBefore]) (c.openElements.takeWhile (isEndedBy v t c))
    (h.childless.push (newElement v t c) rfl)
  obtain ⟨hparent, hleft⟩ := hready.headD_dropWhile (isEndedBy v t c)
  rw [openTag_eq] at hretains ⊢
  dsimp only at hretains ⊢
  generalize closeAll (closingBefore t c.document.size) (c.openElements.takeWhile (isEndedBy v t c))
    (c.document.push (newElement v t c)) = closed at hd hms hget hretains ⊢
  generalize (c.openElements.dropWhile (isEndedBy v t c)).headD rootId =
    p at hretains hparent hleft ⊢
  have hlt : p < c.document.size := hready.lt_size hparent
  obtain ⟨m, hm, hatom⟩ := h.exists_not_isAtom hready hp hparent
  have hchildless : (closed.1.appendChild p c.document.size).AtomsChildless := by
    refine hd.appendChild ?_ hatom _
    rw [hget, if_neg hleft, Document.get?_push_of_lt hlt, hm]
  refine ⟨⟨hchildless, ?_, ?_⟩, ?_⟩
  · -- nothing but the new element can be void
    intro id hid hvoid
    by_cases hnew : id = c.document.size
    · exact ⟨none, by rw [hnew]⟩
    · have hmem : id ∈ rootId :: c.openElements := by
        simp only [List.mem_cons, hnew, false_or] at hid
        rw [List.mem_cons]
        exact hid.imp_right fun hid => (List.dropWhile_sublist _).subset hid
      rw [hretains.void_node, Document.void_node_adopt (hready.lt_size hmem),
        h.void_eq_false (by simp [hp]) hmem] at hvoid
      cases hvoid
  · -- the pending element is the new one, which was made without children
    intro id last hlast
    cases hlast
    have hnew : (closed.1.appendChild p c.document.size).get? c.document.size =
        some { newElement v t c with parent := some p } := by
      have hnot : c.document.size ∉ c.openElements.takeWhile (isEndedBy v t c) := fun hmem =>
        Nat.lt_irrefl _ (hready.sound.lt_size ((List.takeWhile_sublist _).subset hmem))
      have hne : p ≠ c.document.size := Nat.ne_of_lt hlt
      rw [Document.appendChild, Document.get?_modify_of_ne hne, Document.get?_modify_self,
        hget, if_neg hnot, Document.get?_push, if_pos rfl]
      rfl
    rw [Document.node_of_get? hnew]
    rfl
  · exact List.forall_mem_append.mpr ⟨hms, List.forall_mem_singleton.mpr hchildless⟩

/-- The end of its start tag closes a void element before anything goes into it. -/
private theorem finishOpening (h : c.Tidy) (hready : c.Ready) {id : NodeId}
    {last : Option PendingAttribute} (hp : c.pending = some (.opening id last)) (t : Token) :
    (c.finishOpening id t).1.Tidy ∧ ∀ m ∈ (c.finishOpening id t).2, m.document.AtomsChildless := by
  obtain ⟨ids, hids⟩ := List.head?_eq_some_iff.mp (hready.pending_top id last hp)
  have hsound := hready.sound
  simp only [stage, hids] at hsound
  have hwiden : ∀ i, ((c.document.widen id t.location t.isSelfClosing).node i).void =
      (c.document.node i).void :=
    fun _ => Document.void_node_modify fun _ => rfl
  have hchildless : (c.document.widen id t.location t.isSelfClosing).AtomsChildless :=
    h.childless.modify_of_imp id (fun _ hatom => hatom) fun _ => rfl
  have hchildren : ((c.document.widen id t.location t.isSelfClosing).node id).children =
      (c.document.node id).children :=
    Document.children_node_modify fun _ => rfl
  rw [h.children_of_pending id last hp] at hchildren
  -- no other element that is open is void
  have hvoid : ∀ i ∈ rootId :: id :: ids, i ≠ id → (c.document.node i).void = false := by
    intro i hi hne
    rw [← hids] at hi
    exact Bool.eq_false_iff.mpr fun htrue => hne (h.eq_of_void hp hi htrue)
  rw [finishOpening_of_top hids]
  generalize c.document.widen id t.location t.isSelfClosing = d at hwiden hchildless hchildren
  dsimp only
  split
  · have hclosed : ∀ kind, (d.close id kind t.location.stop).AtomsChildless := by
      intro kind
      apply hchildless.modify
      intro n hn _
      rw [Document.node_of_get? hn] at hchildren
      exact hchildren
    refine ⟨of_pending_eq_none (hclosed _) rfl ?_, by simpa using hclosed _⟩
    intro i hi
    have hne : i ≠ id := by
      rintro rfl
      cases List.mem_cons.mp hi with
      | inl hroot => exact hsound.ne_root (List.mem_cons_self ..) hroot
      | inr hmem => exact Nat.lt_irrefl _ ((List.pairwise_cons.mp hsound.decreasing).1 _ hmem)
    have hsame : ∀ kind, ((d.close id kind t.location.stop).node i).void = (d.node i).void :=
      fun _ => Document.void_node_modify fun _ => rfl
    rw [hsame, hwiden]
    apply hvoid i _ hne
    exact List.cons_subset_cons _ (List.subset_cons_self ..) hi
  · rename_i hcontent
    refine ⟨of_pending_eq_none hchildless rfl ?_, by simp⟩
    intro i hi
    rw [hwiden]
    by_cases heq : i = id
    · rw [heq, ← hwiden]
      simp only [Bool.or_eq_true, not_or, Bool.not_eq_true] at hcontent
      exact hcontent.1
    · exact hvoid i (by rw [← hids]; exact hi) heq

/-- Whichever tag ends, no void element is open after it. -/
private theorem finishTag (h : c.Tidy) (hready : c.Ready) (t : Token) :
    (c.finishTag v t).1.Tidy ∧ ∀ m ∈ (c.finishTag v t).2, m.document.AtomsChildless := by
  cases hp : c.pending with
  | none =>
    simp only [Construction.finishTag_eq, hp]
    exact ⟨h, by simp⟩
  | some tag =>
    cases tag with
    | opening id last =>
      simp only [Construction.finishTag_eq, hp]
      exact h.finishOpening hready hp t
    | closing name location =>
      obtain ⟨hretains, hids⟩ := finishTag_retains v t c
      have hnone := pending_finishTag v t c
      simp only [Construction.finishTag_eq, hp] at hretains hids hnone ⊢
      obtain ⟨hchildless, hms⟩ :=
        closeTag_atomsChildless (c := { c with pending := none }) (v := v) h.childless name
        (location.extendTo t.location)
      refine ⟨of_pending_eq_none hchildless hnone ?_, hms⟩
      intro id hid
      rw [hretains.void_node]
      apply h.void_eq_false (by simp [hp])
      exact List.cons_subset_cons _ hids.subset hid

/-- Outside of tags text goes into no atom. -/
private theorem addText (h : c.Tidy) (hready : c.Ready) (hp : c.pending = none) (t : Token) :
    (c.addText t).Tidy := by
  have hcurrent : c.current ∈ rootId :: c.openElements := by
    unfold current
    cases c.openElements <;> simp
  obtain ⟨m, hm, hatom⟩ := h.exists_not_isAtom hready hp hcurrent
  apply of_pending_eq_none (c := c.addText t) _ hp
  · intro id hid
    have hvoid := h.void_eq_false (by simp [hp]) hid
    rwa [← Document.void_node_adopt (hready.lt_size hid)] at hvoid
  · apply (h.childless.push _ _).appendChild _ hatom
    · rfl
    · rw [Document.get?_push_of_lt (Document.lt_size_of_get? hm), hm]

/-- Whatever the token, if it stands inside or outside of a tag as it should. -/
private theorem step {t : Token} (h : c.Tidy) (hready : c.Ready)
    (hpending : t.kind.inTag = false → c.pending = none) (v : Vocabulary) :
    (c.step v t).1.Tidy ∧ ∀ m ∈ (c.step v t).2, m.document.AtomsChildless := by
  cases hkind : t.kind with
  | tagOpen =>
    have hp : c.pending = none := hpending (by rw [hkind]; rfl)
    simp only [Construction.step_eq, hkind]
    split
    · -- an end tag makes no node, and no open element was void before it
      refine ⟨⟨h.childless, ?_, by simp⟩, by simp⟩
      intro id hid hvoid
      rw [h.void_eq_false (by simp [hp]) hid] at hvoid
      cases hvoid
    · exact h.openTag hready hp t
  | attrName =>
    simp only [Construction.step_eq, hkind]
    exact ⟨(h.storeLast none).1.expectValue t, (h.storeLast none).2⟩
  | attrValue =>
    simp only [Construction.step_eq, hkind]
    exact h.storeLast (some t)
  | tagClose =>
    simp only [Construction.step_eq, hkind]
    obtain ⟨hstored, hms⟩ := h.storeLast none
    obtain ⟨hdone, hms'⟩ := hstored.finishTag (v := v) (hready.storeLast none) t
    exact ⟨hdone, List.forall_mem_append.mpr ⟨hms, hms'⟩⟩
  | text =>
    have hp : c.pending = none := hpending (by rw [hkind]; rfl)
    simp only [Construction.step_eq, hkind]
    exact ⟨h.addText hready hp t, by simp⟩
  | comment =>
    simp only [Construction.step_eq, hkind]
    refine ⟨h, ?_⟩
    intro m hm
    obtain ⟨e, -, rfl⟩ := List.mem_map.mp hm
    exact h.childless
  | doctype =>
    simp only [Construction.step_eq, hkind]
    exact ⟨h, by simpa using h.childless⟩

/-- The first event changes nothing. -/
private theorem start (h : c.Tidy) :
    c.start.1.Tidy ∧ ∀ m ∈ c.start.2, m.document.AtomsChildless := by
  simp only [Construction.start]
  split
  · exact ⟨h, by simp⟩
  · exact ⟨⟨h.childless, h.pending_of_void, h.children_of_pending⟩, by simpa using h.childless⟩

end Tidy

/-! ## All tokens -/

/-- All tokens of a source, whether or not it can be cut up to its end. -/
private theorem Tidy.takeIn {whole : Prop} {source : List Char} {r k : Nat} {inTag : Bool}
    {ts : List Token} (h : c.Tidy) (hpaced : c.Paced source inTag r k)
    (hts : Token.TileFrom whole source inTag k ts) :
    (Construction.takeIn v ts c).1.Tidy ∧
    ∀ m ∈ (Construction.takeIn v ts c).2, m.document.AtomsChildless := by
  induction ts generalizing c r k inTag with
  | nil => exact ⟨h, by simp [Construction.takeIn]⟩
  | cons t ts ih =>
    obtain ⟨rfl, hstands, ht, hlater⟩ := hts.cons
    -- the tiling is what says that no tag is pending where text or a new tag comes
    obtain ⟨r', -, hpaced'⟩ := hpaced.start.step v rfl hstands ht
    obtain ⟨hstarted, hms⟩ := h.start
    obtain ⟨hstep, hms'⟩ := hstarted.step hpaced.start.ready hpaced.start.pending_eq v
    obtain ⟨hdone, hms''⟩ := ih hstep hpaced' hlater
    refine ⟨hdone, ?_⟩
    intro m hm
    simp only [Construction.takeIn, push_eq, List.append_assoc, List.mem_append] at hm
    obtain hm | hm | hm := hm
    · exact hms m hm
    · exact hms' m hm
    · exact hms'' m hm

/-- The end of the source closes elements, but not as void or self-closed. -/
private theorem finish_atomsChildless (h : c.Tidy) (v : Vocabulary) :
    (c.finish v).1.AtomsChildless ∧ ∀ m ∈ (c.finish v).2, m.document.AtomsChildless := by
  obtain ⟨hstarted, hms⟩ := h.start
  rw [finish_eq]
  obtain ⟨hd, hms'⟩ := closeAll_atomsChildless (closingAtEnd v c.start.1.document.sourceLength)
    (fun _ => by simp [closingAtEnd, closingWithoutEnd]) c.start.1.openElements hstarted.childless
  have hended :=
    hd.modify_of_imp rootId
      (f := fun n => { n with endOffset := some c.start.1.document.sourceLength })
    (fun _ => id) fun _ => rfl
  refine ⟨hended, ?_⟩
  intro m hm
  simp only [List.mem_append, List.mem_singleton] at hm
  obtain (hm | hm) | rfl := hm
  · exact hms m hm
  · exact hms' m hm
  · exact hended

end Construction

/-! ## Sources -/

/-- Whether an element is void is known from the start. -/
private theorem Move.void_node {s t : Stage} {ms : List Moment} (hm : Move s ms t) {i : Nat}
    (hi : i < s.document.size) :
    (t.document.node i).void = (s.document.node i).void := by
  cases hm with
  | remark | announce => rfl
  | store | widen | close => exact Document.void_node_modify fun _ => rfl
  | text | place => exact Document.void_node_adopt hi _ _

/-- Every run keeps which elements are void. -/
private theorem Run.void_node {s t : Stage} {ms : List Moment} (hr : Run s ms t) (h : s.Sound)
    {i : Nat} (hi : i < s.document.size) : (t.document.node i).void = (s.document.node i).void := by
  induction hr with
  | done s => rfl
  | move first _ ih =>
    have hle := (first.growsTo h).size_le
    rw [ih (h.move first) (by omega), first.void_node hi]

open Construction

/-- The end of a start tag closes an element that is void or whose tag ends in a slash, and what
follows leaves this element as it is. -/
private theorem Construction.InStartTag.closed_by_last {v : Vocabulary} {c : Construction}
    {id : NodeId} {left : List NodeId} (h : c.InStartTag id left) (hready : c.Ready) {last : Token}
    (hlast : last.kind = .tagClose) {after : List Token} {n : Node}
    (hn : ((Construction.takeIn v (last :: after) c).1.finish v).1.get? id = some n)
    (hempty : n.void = true ∨ last.isSelfClosing = true) :
    n.closed = some (if n.void then .void else .selfClosed) ∧
    (c.push v last).1.document.get? id = some n ∧
      .tagClose id none (if n.void then .void else .selfClosed) n.location ∈ (c.push v last).2.map
        Moment.event := by
  have hopen : id ∈ c.openElements := by
    rw [h.open_eq]
    exact List.mem_cons_self ..
  have hlt := hready.sound.lt_size hopen
  have hroot := hready.sound.ne_root hopen
  -- ending the document changes the root only
  have hended : ∀ d : Document, d.ended.get? id = d.get? id :=
    fun d => Document.get?_modify_of_ne (Ne.symm hroot) _
  have hvoid : n.void = (c.document.node id).void := by
    obtain ⟨ms, d, hrun, hfinal⟩ := takeIn_finish_run (v := v) hready h.started (last :: after)
    rw [hfinal, hended] at hn
    rw [← Document.node_of_get? hn]
    exact hrun.void_node hready.sound hlt
  rw [hvoid] at hempty
  obtain ⟨n', hn', -, hclosed, hleft, hclosing⟩ := h.push_last (v := v) hlt hlast hempty
  have hdone : (c.push v last).1.Ready ∧ (c.push v last).1.started = true := by
    rw [push_of_started h.started, step_started]
    exact ⟨hready.step v last, h.started⟩
  have hnot : id ∉ (c.push v last).1.openElements := by
    have hdecreasing := hready.sound.decreasing
    simp only [stage, h.open_eq, List.pairwise_cons] at hdecreasing
    rw [hleft]
    intro hmem
    exact Nat.lt_irrefl _ (hdecreasing.1 _ hmem)
  have heq : n' = n := by
    obtain ⟨ms, d, hrun, hfinal⟩ := takeIn_finish_run (v := v) hdone.1 hdone.2 after
    have hsame := hrun.get?_eq hdone.1.sound (Document.lt_size_of_get? hn') hroot hnot
    change ((Construction.takeIn v after (c.push v last).1).1.finish v).1.get? id = some n at hn
    rw [hfinal, hended] at hn
    exact Option.some.inj (hn'.symm.trans (hsame.symm.trans hn))
  subst heq
  exact ⟨hclosed, hn', hclosing⟩

/-- No atom has a child at any moment or in the end, whether or not the source can be cut up to its
end. -/
theorem record_atomsChildless (v : Vocabulary) (source : String) :
    let made := record v (tokenize source).tokens (byteLength source.toList)
    made.1.AtomsChildless ∧ ∀ m ∈ made.2, m.document.AtomsChildless := by
  obtain ⟨htidy, hmoments⟩ :=
    (Tidy.ofLength (byteLength source.toList)).takeIn (v := v) (.ofLength _ _)
    (tokenize_tileFrom source)
  obtain ⟨hfinal, hlast⟩ := finish_atomsChildless htidy v
  rw [record_eq]
  refine ⟨hfinal, ?_⟩
  intro m hm
  cases List.mem_append.mp hm with
  | inl hm => exact hmoments m hm
  | inr hm => exact hlast m hm

/-- Every element of a document is opened by the beginning of a start tag, which has its end in the
source. -/
theorem exists_startTag {v : Vocabulary} {source : String}
    (hwhole : (tokenize source).failure = none) {n : Node}
    (hn : n ∈ (record v (tokenize source).tokens (byteLength source.toList)).1.elements) :
    ∃ before first attributes last after,
      (tokenize source).tokens = before ++ first :: (attributes ++ last :: after) ∧
      Token.IsTag first attributes last ∧ first.isEndTag = false ∧
      n.id = (takeIn v before (.ofLength (byteLength source.toList))).1.document.size := by
  have hget := (record_isTree v _ _).get?_id hn
  have hkind : n.kind = .element := by simpa [Node.isElement] using (Document.mem_elements.mp hn).2
  -- the element was there when all tokens had been taken in
  rw [record_eq] at hget
  obtain ⟨o, ho, hlike⟩ := (finish_retains v _).exists_get? hget
  have hroot : n.id ≠ rootId := by
    intro hroot
    obtain ⟨root, hroot', hlike'⟩ :=
      takeIn_foreshadows (v := v) (.ofLength _) (tokenize source).tokens rootId _
      (Document.get?_rootId (.ofLength (byteLength source.toList)))
    rw [hroot, hroot'] at ho
    cases ho
    rw [← hlike.kind_eq, ← hlike'.kind_eq] at hkind
    cases hkind
  have hsize : (ofLength (byteLength source.toList)).document.size ≤ n.id :=
    Nat.one_le_iff_ne_zero.mpr hroot
  obtain ⟨before, first, rest, htokens, hfirst, hend, hid⟩ :=
    exists_startTag_of_element (.ofLength _) ho (hlike.kind_eq.trans hkind) hsize
  have htiles : Token.Tiles ((tokenize source).failure = none) false Position.start source.toList
      (tokenize source).tokens :=
    Scanner.run_tiles (s := .ofSource source.toList) trivial
  rw [htokens] at htiles
  obtain ⟨attributes, last, after, rfl, htag⟩ := htiles.exists_isTag hwhole hfirst
  exact ⟨before, first, attributes, last, after, htokens, htag, hend, hid⟩

/-- Text, void elements and elements closed by their own start tag have no children, at no moment
and not in the end, whether or not the source can be cut up to its end.  If it can, then every
element has a start tag, and the end of this tag closes the element if it is void or the tag ends in
a slash. -/
theorem atoms_childless (v : Vocabulary) (source : String) :
    let tokens := (tokenize source).tokens
    let length := byteLength source.toList
    let made := record v tokens length
    (∀ m ∈ made.2, m.document.AtomsChildless) ∧ made.1.AtomsChildless ∧
    ((tokenize source).failure = none → ∀ n ∈ made.1.elements, ∃ before first attributes last after,
      tokens = before ++ first :: (attributes ++ last :: after) ∧
      Token.IsTag first attributes last ∧
      first.isEndTag = false ∧
      let outside := (takeIn v before (.ofLength length)).1
      let inside := (takeIn v (before ++ first :: attributes) (.ofLength length)).1
      .tagOpen n.id first.location ∈ (outside.push v first).2.map Moment.event ∧
      (n.void = true ∨ last.isSelfClosing = true →
        n.closed = some (if n.void then .void else .selfClosed) ∧ inside.document.IsOpen n.id ∧
        (inside.push v last).1.document.get? n.id = some n ∧
        .tagClose n.id none (if n.void then .void else .selfClosed) n.location ∈
          (inside.push v last).2.map Moment.event)) := by
  intro tokens length made
  obtain ⟨hfinal, hmoments⟩ := record_atomsChildless v source
  refine ⟨hmoments, hfinal, ?_⟩
  intro hwhole n hn
  obtain ⟨before, first, attributes, last, after, htokens, htag, hend, hid⟩ :=
    exists_startTag hwhole hn
  refine ⟨before, first, attributes, last, after, htokens, htag, hend, ?_⟩
  intro outside inside
  -- the element is the current one from the beginning of the tag to its end
  obtain ⟨⟨left, hfirst⟩, hopening⟩ := push_startTag (c := outside) (v := v) htag.first_kind hend
  rw [← hid] at hfirst hopening
  refine ⟨hopening, ?_⟩
  have hinside : inside.InStartTag n.id left := by
    have hsplit : inside = (takeIn v attributes (outside.push v first).1).1 := by
      simp only [inside, takeIn_append]
      rfl
    rw [hsplit]
    exact hfirst.takeIn htag.attributes_kind
  have hlater : tokens = (before ++ first :: attributes) ++ last :: after :=
    by simp [tokens, htokens]
  have hready : inside.Ready := Ready.takeIn (.ofLength length) v _
  have hopen : n.id ∈ inside.openElements := by
    rw [hinside.open_eq]
    exact List.mem_cons_self ..
  have hget := (record_isTree v tokens length).get?_id hn
  rw [record_eq, hlater, takeIn_append] at hget
  intro hempty
  obtain ⟨hclosed, hdone, hclosing⟩ := hinside.closed_by_last hready htag.last_kind hget hempty
  exact ⟨hclosed, (hready.sound.mem_iff _).mp hopen, hdone, hclosing⟩

/-- Inside a picture a line break is an element like others, which a slash closes.  Outside of it
the line break is void, whether or not there is a slash. -/
theorem atoms_childless_picture :
    let source := "<br/><svg><br/><br>x</svg>"
    let v : Vocabulary := ⟨.ofList [("br", { (default : ElementModel) with void := true }),
      ("svg", { (default : ElementModel) with foreign := true })]⟩
    let made := record v (tokenize source).tokens (byteLength source.toList)
    (tokenize source).failure = none ∧
    made.1.elements.map (fun n => (n.tag, n.void)) =
      [("br", true), ("svg", false), ("br", false), ("br", false)] ∧
    ∀ n ∈ made.1.elements, ∃ last ∈ (tokenize source).tokens, last.kind = .tagClose ∧
      (n.void = true ∨ last.isSelfClosing = true →
        n.closed = some (if n.void then .void else .selfClosed)) := by
  intro source v made
  have hwhole : (tokenize source).failure = none := by decide +kernel
  refine ⟨hwhole, by decide +kernel, ?_⟩
  intro n hn
  obtain ⟨before, first, attributes, last, after, htokens, htag, -, -, hclosed⟩ :=
    (atoms_childless v source).2.2 hwhole n hn
  refine ⟨last, ?_, htag.last_kind, fun hempty => (hclosed hempty).1⟩
  rw [htokens]
  simp

end HtmlLint
