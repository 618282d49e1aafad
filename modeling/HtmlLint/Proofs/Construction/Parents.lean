import HtmlLint.Proofs.Construction.Spelling

/-!
# Nodes and their parents

Where a node stands tells much about it.  Foreign content goes all the way down: text is foreign
where its parent is, and so is an element, unless its own tag begins foreign content.  Outside of
foreign content tags are in small letters, a tag decides whether an element is void, and no element
stands in one that it ends.  `Node.FitsIn` puts this together, and `record_fitsIn` says it of every
node of a document and its parent, whatever the tokens, if the tags of the vocabulary are in small
letters.

A start tag decides these things by the node that is current when the tag begins, and only then
closes the elements that it ends.  That the node where the element comes to stand is as foreign as
the one looked at is `Shaded.foreign_parent`; that the element does not end this node is what stops
the closing.
-/

namespace HtmlLint

/-- What a node is, told from its parent. -/
structure Node.FitsIn (v : Vocabulary) (n parent : Node) : Prop where
  foreign_iff : n.kind = .element →
    (n.foreign = true ↔ parent.foreign = true ∨ ∃ model, v.find? n.tag = some model ∧
      model.foreign = true)
  text_foreign_iff : ∀ content, n.kind = .text content → (n.foreign = true ↔ parent.foreign = true)
  void_iff : n.kind = .element →
    (n.void = true ↔ parent.foreign = false ∧ ∃ model, v.find? n.tag = some model ∧
      model.void = true)
  tag_small : n.kind = .element → parent.foreign = false → ∀ c ∈ n.tag.toList, c.isUpper = false
  /-- none of the tags that end the parent is that of the node -/
  not_ended : n.kind = .element → parent.foreign = false → ∀ model, v.modelOf? parent = some model →
    ∀ closer ∈ model.implicitClosed, Text.sameName closer n.tag = false

/-- The node may stand in this parent: what is no element is as foreign as the parent, and outside
of foreign content an element does not end the parent. -/
structure Node.MayStandIn (v : Vocabulary) (n parent : Node) : Prop where
  foreign_eq : n.kind ≠ .element → n.foreign = parent.foreign
  not_ends : n.kind = .element → parent.foreign = false →
    Construction.endsBefore v n.tag parent = false

/-- Whether a node may stand in another is decided by what both retain. -/
private theorem Node.MayStandIn.congr {v : Vocabulary} {n n' m m' : Node} (hn : n.Retains n')
    (hm : m.Retains m') (h : n.MayStandIn v m) : n'.MayStandIn v m' := by
  constructor
  · intro hkind
    rw [← hn.kind_eq] at hkind
    rw [← hn.foreign_eq, ← hm.foreign_eq]
    exact h.foreign_eq hkind
  · intro hkind hforeign
    rw [← hn.kind_eq] at hkind
    rw [← hm.foreign_eq] at hforeign
    unfold Construction.endsBefore
    rw [← hn.tag_eq, ← hm.modelOf?_eq v]
    exact h.not_ends hkind hforeign

namespace Construction

variable {v : Vocabulary} {c : Construction}

/-! ## New nodes -/

/-- Nothing ends the root. -/
private theorem Ready.endsBefore_root (h : c.Ready) (v : Vocabulary) (tag : String) :
    endsBefore v tag (c.document.node rootId) = false := by
  obtain ⟨root, hroot, hkind, -⟩ := h.sound.root_open
  have hnone : v.modelOf? root = none := by simp [Vocabulary.modelOf?, Node.isElement, hkind]
  have hnode : c.document.node rootId = root := Document.node_of_get? hroot
  rw [hnode, endsBefore, hnone]
  rfl

/-- A new element does not end the node that it comes to stand in, for there the closing of elements
has stopped. -/
private theorem Shaded.newElement_mayStandIn (h : c.Shaded v) (t : Token) :
    let p := (c.openElements.dropWhile (isEndedBy v t c)).headD rootId
    Node.MayStandIn v { newElement v t c with parent := some p } (c.document.node p) := by
  intro p
  have hparent : (c.document.node p).foreign = (c.document.node c.current).foreign :=
    h.foreign_parent t
  constructor
  · intro hkind
    exact absurd rfl hkind
  · intro _ hforeign
    rw [hparent] at hforeign
    show endsBefore v (newElement v t c).tag (c.document.node p) = false
    cases hleft : c.openElements.dropWhile (isEndedBy v t c) with
    | nil =>
      have hp : p = rootId := by simp only [p, hleft]; rfl
      rw [hp]
      exact h.ready.endsBefore_root v _
    | cons top left =>
      have hp : p = top := by simp only [p, hleft]; rfl
      have hstop : isEndedBy v t c top = false := by
        have hhead := List.head?_dropWhile_not (isEndedBy v t c) c.openElements
        rw [hleft] at hhead
        simpa using hhead
      have hlt : top < c.document.size := hp ▸ h.ready.lt_size (headD_dropWhile_mem _ c)
      -- the new element is there already when the open ones are looked at, but none of them is
      -- changed by that
      have hnode : (c.document.push (newElement v t c)).node top = c.document.node top := by
        obtain ⟨n, hn⟩ := Document.exists_get?_of_lt hlt
        rw [Document.node_of_get? hn, Document.node_of_get? (Document.get?_push_of_lt hlt ▸ hn)]
      rw [hp]
      simpa only [isEndedBy, hforeign, Bool.not_false, Bool.true_and, hnode] using hstop

/-! ## All tokens -/

/-- Besides what is known about foreign content, every node may stand where it does. -/
structure Settled (v : Vocabulary) (c : Construction) : Prop extends c.Shaded v where
  stand : c.document.Relates (Node.MayStandIn v)

namespace Settled

/-- At the start there is only the root. -/
private theorem ofLength (v : Vocabulary) (length : Nat) :
    (Construction.ofLength length).Settled v where
  toShaded := .ofLength v length
  stand := by
    -- there is only the root, which has no parent
    intro i p n m hn hparent _
    have hi : i < 1 := Document.lt_size_of_get? hn
    obtain rfl : i = 0 := by omega
    cases hn
    cases hparent

/-- The first event changes nothing. -/
private theorem start (h : c.Settled v) : c.start.1.Settled v where
  toShaded := h.toShaded.start
  stand := by
    have hdoc : c.start.1.document = c.document := congrArg Stage.document (stage_start c)
    rw [hdoc]
    exact h.stand

/-- Every token keeps it: only a start tag brings a new node, and it has closed before what cannot
stay open around it. -/
private theorem step (h : c.Settled v) (t : Token) : (c.step v t).1.Settled v := by
  refine ⟨h.toShaded.step t, ?_⟩
  obtain hopen | htext | ⟨hd, -⟩ := step_cases v t c
  · have hp := h.ready.lt_size (headD_dropWhile_mem (isEndedBy v t c) c)
    have hadopt := h.stand.adopt Node.MayStandIn.congr h.grown.tree hp (h.newElement_mayStandIn t)
    rw [hopen]
    exact (openTag_retains v t c).relates Node.MayStandIn.congr hadopt
  · rw [htext]
    refine h.stand.adopt Node.MayStandIn.congr h.grown.tree h.ready.sound.head_lt_size
      ⟨fun _ => rfl, ?_⟩
    intro hkind
    cases hkind
  · exact hd.relates Node.MayStandIn.congr h.stand

/-- All tokens, by induction from the first one on. -/
private theorem takeIn (h : c.Settled v) (ts : List Token) : (takeIn v ts c).1.Settled v := by
  induction ts generalizing c with
  | nil => exact h
  | cons t ts ih => exact ih (h.start.step t)

end Settled

/-- In every document each node may stand in its parent. -/
private theorem record_mayStandIn (v : Vocabulary) (ts : List Token) (length : Nat) :
    (record v ts length).1.Relates (Node.MayStandIn v) := by
  rw [record_eq]
  exact (finish_retains v _).relates Node.MayStandIn.congr
    ((Settled.ofLength v length).takeIn ts).stand

end Construction

/-! ## Vocabularies in small letters -/

/-- If the known tags are in small letters, then the tag of an element tells as much as the tag that
was written. -/
private theorem Node.IsMadeIn.find?_tag {v : Vocabulary} (hv : v.IsSmall) {n parent : Node}
    (h : n.IsMadeIn v parent) :
    n.foreign = (parent.foreign || (v.find? n.tag).any (·.foreign)) ∧
      n.void = (!parent.foreign && (v.find? n.tag).any (·.void)) := by
  obtain ⟨written, htag, hforeign, hvoid⟩ := h
  have hfind : v.find? n.tag = v.find? written := by
    rw [htag]
    split
    · rfl
    · exact hv.find?_foldCase written
  rw [hfind]
  exact ⟨hforeign, hvoid⟩

/-- Outside of foreign content there are no capitals in a tag. -/
private theorem Node.IsMadeIn.tag_small {v : Vocabulary} {n parent : Node} (h : n.IsMadeIn v parent)
    (hparent : parent.foreign = false) : ∀ c ∈ n.tag.toList, c.isUpper = false := by
  obtain ⟨written, htag, -⟩ := h
  have hfold : n.tag.toList = written.toList.map Char.toLower := by
    simp [htag, hparent, Text.foldChars]
  intro c hc
  rw [hfold] at hc
  obtain ⟨x, -, rfl⟩ := List.mem_map.mp hc
  exact Text.isUpper_toLower x

/-- Every node but the root has a parent and fits in there, whatever the tokens. -/
theorem record_fitsIn {v : Vocabulary} (hv : v.IsSmall) (ts : List Token) (length : Nat) :
    let d := (Construction.record v ts length).1
    ∀ i n, d.get? i = some n → i ≠ rootId → ∃ parent, d.parent? i = some parent ∧
    n.FitsIn v parent := by
  intro d i n hn hi
  have htree : d.IsTree := Construction.record_isTree v ts length
  obtain ⟨p, hp⟩ : ∃ p, n.parent = some p :=
    Option.ne_none_iff_exists'.mp fun hnone => hi ((htree.parent_eq_none_iff hn).mp hnone)
  obtain ⟨parent, hparent⟩ : ∃ parent, d.get? p = some parent :=
    Document.exists_get?_of_lt (Nat.lt_trans (htree.parent_lt hn hp) (Document.lt_size_of_get? hn))
  have hstand := Construction.record_mayStandIn v ts length i p n parent hn hp hparent
  have hmade :=
    fun hkind => (Construction.record_isMadeWith v ts length).made i p n parent hn hkind hp hparent
  refine ⟨parent, by simp [Document.parent?, hn, hp, hparent], ?_, ?_, ?_, ?_, ?_⟩
  · intro hkind
    rw [((hmade hkind).find?_tag hv).1, Bool.or_eq_true, Option.any_eq_true]
  · intro content hkind
    rw [hstand.foreign_eq (by simp [hkind])]
  · intro hkind
    rw [((hmade hkind).find?_tag hv).2, Bool.and_eq_true, Bool.not_eq_true', Option.any_eq_true]
  · exact fun hkind => (hmade hkind).tag_small
  · intro hkind hforeign model hmodel closer hcloser
    have hends := hstand.not_ends hkind hforeign
    rw [Construction.endsBefore, hmodel, Option.any_some, ElementModel.isClosedBy,
      List.any_eq_false] at hends
    exact Bool.eq_false_iff.mpr (hends closer hcloser)

/-- Two items, of which the second ends the first, and a picture in the second one.  In the picture
an item stands in an item, and a line break is not void. -/
theorem record_fitsIn_items :
    let v : Vocabulary := ⟨.ofList [("br", { (default : ElementModel) with void := true }),
      ("li", { (default : ElementModel) with implicitClosed := ["LI"] }),
      ("svg", { (default : ElementModel) with foreign := true })]⟩
    let d := (Construction.record v (tokenize "<li>a<LI><Svg><LI><li>b<br></svg><BR>").tokens 37).1
    v.IsSmall ∧
    d.nodes.toList.map (fun n => (n.tag, n.parent, n.foreign, n.void)) =
      [("", none, false, false), ("li", some 0, false, false), ("", some 1, false, false),
        ("li", some 0, false, false),
        ("svg", some 3, true, false), ("LI", some 4, true, false), ("li", some 5, true, false),
        ("", some 6, true, false),
        ("br", some 6, true, false), ("br", some 3, false, true)] ∧
    ∀ i, i ≠ rootId → i < 10 → ∃ n parent, d.get? i = some n ∧ d.parent? i = some parent ∧
    n.FitsIn v parent := by
  intro v d
  have hv : v.IsSmall := by decide +kernel
  refine ⟨hv, by decide +kernel, ?_⟩
  intro i hroot hi
  have hsize : d.size = 10 := by decide +kernel
  obtain ⟨n, hn⟩ := Document.exists_get?_of_lt (hsize ▸ hi)
  obtain ⟨parent, hparent, hfits⟩ := record_fitsIn hv _ _ i n hn hroot
  exact ⟨n, parent, hn, hparent, hfits⟩

end HtmlLint
