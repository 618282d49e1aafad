import HtmlLint.Proofs.Construction.Finality
import HtmlLint.Proofs.Element.Html

/-!
# Foreign content

What an element is depends on the node that it is made in.  In foreign content its tag stays as it
is written, and the element is foreign and never void; elsewhere its tag is put in small letters,
and its model decides.  `Node.IsMadeIn` says this once, and `record_isMadeWith` says it of every
element of a document and its parent, whatever the tokens.

A start tag looks at the current node, but the element may come to stand in another one, after the
elements that it ends are closed.  The invariant `Construction.Shaded` makes up for that: what
stands around a node that is not foreign is not foreign either.

So an element in foreign content has a model exactly if its tag belongs to an element that begins
foreign content: `modelOf?_in_foreign`.  A picture inside a picture still has one
(`nested_svg_has_model`).
-/

namespace HtmlLint

/-- The node is what a start tag makes inside a parent. -/
def Node.IsMadeIn (v : Vocabulary) (n parent : Node) : Prop :=
  ∃ written : String,
    n.tag = (if parent.foreign then written else Text.foldCase written) ∧
    n.foreign = (parent.foreign || (v.find? written).any (·.foreign)) ∧
    n.void = (!parent.foreign && (v.find? written).any (·.void))

/-- Every element is what a start tag makes inside its parent, and nothing else has a tag. -/
structure Document.IsMadeWith (v : Vocabulary) (d : Document) : Prop where
  made : ∀ (i p : Nat) (n m : Node), d.get? i = some n → n.kind = .element → n.parent = some p →
    d.get? p = some m → n.IsMadeIn v m
  untagged : ∀ (i : Nat) (n : Node), d.get? i = some n → n.kind ≠ .element ∨
    n.parent = none → n.tag = ""

/-- Every node that has a parent is related to it. -/
def Document.Relates (R : Node → Node → Prop) (d : Document) : Prop :=
  ∀ (i p : Nat) (n m : Node), d.get? i = some n → n.parent = some p → d.get? p = some m → R n m

/-! ## Changes that keep what nodes are -/

/-- The nodes are the same in what is known from the start on, and in having no content. -/
structure Node.Retains (n n' : Node) : Prop extends n.Resembles n' where
  void_eq : n.void = n'.void

/-- Every node retains itself. -/
private theorem Node.Retains.refl (n : Node) : n.Retains n :=
  ⟨.refl n, rfl⟩

/-- What is retained twice is retained. -/
private theorem Node.Retains.trans {n n' n'' : Node} (h : n.Retains n') (h' : n'.Retains n'') :
    n.Retains n'' :=
  ⟨h.toResembles.trans h'.toResembles, h.void_eq.trans h'.void_eq⟩

/-- What an element is made in is told by what is known from the start on. -/
private theorem Node.IsMadeIn.congr {v : Vocabulary} {n n' m m' : Node} (hn : n.Retains n')
    (hm : m.Retains m') (h : n.kind = .element → n.IsMadeIn v m) (hkind : n'.kind = .element) :
    n'.IsMadeIn v m' := by
  rw [← hn.kind_eq] at hkind
  unfold IsMadeIn
  rw [← hn.tag_eq, ← hn.foreign_eq, ← hn.void_eq, ← hm.foreign_eq]
  exact h hkind

/-- The documents have the same nodes, as far as it is known from the start on what they are. -/
def Document.Retains (d d' : Document) : Prop :=
  d.Matches Node.Retains d'

namespace Document.Retains

variable {d d' d'' : Document} {v : Vocabulary}

/-- A document that does not change retains its nodes. -/
private theorem refl (d : Document) : d.Retains d :=
  Matches.refl .refl d

/-- Two changes one after the other retain what each of them retains. -/
theorem trans (h : d.Retains d') (h' : d'.Retains d'') : d.Retains d'' :=
  Matches.trans Node.Retains.trans h h'

/-- So does a change of one node that retains it. -/
theorem modify {j : Nat} {f : Node → Node} (hf : ∀ n : Node, n.Retains (f n)) :
    d.Retains (d.modify j f) :=
  Matches.modify .refl hf

/-- The same node goes under the same parent. -/
private theorem appendChild (h : d.Retains d') (p c : Nat) :
    (d.appendChild p c).Retains (d'.appendChild p c) := by
  -- all that matters of a node is its parent, which only the new child gets
  have hafter : ∀ (e : Document) (i : Nat) (n : Node), e.get? i = some n →
      ∃ n', (e.appendChild p c).get? i = some n' ∧
      n'.kind = n.kind ∧ n'.tag = n.tag ∧ n'.foreign = n.foreign ∧ n'.void = n.void ∧
      n'.parent = if c = i then some p else n.parent := by
    intro e i n hn
    simp only [Document.appendChild, get?_modify, hn]
    by_cases hc : c = i <;> by_cases hp : p = i <;> simp [hc, hp]
  constructor
  · simp only [Document.appendChild, size_modify, h.size_eq]
  · intro i x hx
    have hi : i < d.size := by simpa [Document.appendChild] using lt_size_of_get? hx
    obtain ⟨n, hn⟩ := exists_get?_of_lt hi
    obtain ⟨n', hn', hlike⟩ := h.get? i n hn
    obtain ⟨y, hy, hkind, htag, hforeign, hvoid, hparent⟩ := hafter d i n hn
    obtain ⟨z, hz, hkind', htag', hforeign', hvoid', hparent'⟩ := hafter d' i n' hn'
    rw [hx] at hy
    cases hy
    refine ⟨z, hz, ⟨?_, ?_, ?_, ?_⟩, ?_⟩
    · rw [hkind, hkind', hlike.kind_eq]
    · rw [htag, htag', hlike.tag_eq]
    · rw [hforeign, hforeign', hlike.foreign_eq]
    · rw [hparent, hparent', hlike.parent_eq]
    · rw [hvoid, hvoid', hlike.void_eq]

/-- What relates nodes to their parents stays, if it depends on nothing that may change. -/
theorem relates {R : Node → Node → Prop}
    (hR : ∀ {n n' m m' : Node}, n.Retains n' → m.Retains m' → R n m → R n' m') (h : d.Retains d')
    (hd : d.Relates R) :
    d'.Relates R := by
  intro i p n' m' hn' hparent hm'
  obtain ⟨n, hn, hlike⟩ := h.exists_get? hn'
  obtain ⟨m, hm, hlike'⟩ := h.exists_get? hm'
  rw [← hlike.parent_eq] at hparent
  exact hR hlike hlike' (hd i p n m hn hparent hm)

/-- Elements stay what start tags made them. -/
private theorem isMadeWith (h : d.Retains d') (hd : d.IsMadeWith v) : d'.IsMadeWith v := by
  constructor
  · intro i p n m hn hkind hparent hm
    exact h.relates Node.IsMadeIn.congr
      (fun i p n m hn hparent hm hkind => hd.made i p n m hn hkind hparent hm)
      i p n m hn hparent hm hkind
  · intro i n' hn' hother
    obtain ⟨n, hn, hlike⟩ := h.exists_get? hn'
    rw [← hlike.kind_eq, ← hlike.parent_eq] at hother
    rw [← hlike.tag_eq]
    exact hd.untagged i n hn hother

/-- A node is foreign in both or in none. -/
private theorem foreign_node (h : d.Retains d') (i : Nat) :
    (d'.node i).foreign = (d.node i).foreign :=
  (Matches.node h i).foreign_eq.symm

end Document.Retains

/-- The other nodes are what they were when a node gets a new child. -/
theorem Document.exists_retains_of_adopt {d : Document} {p i : Nat} {new n : Node}
    (h : (d.adopt p new).get? i = some n) (hi : i ≠ d.size) :
    ∃ o, d.get? i = some o ∧ o.Retains n := by
  obtain ⟨o, ho, rfl⟩ := exists_of_get?_adopt h hi
  exact ⟨o, ho, ⟨rfl, rfl, rfl, rfl⟩, rfl⟩

/-- A new node is related to its parent, and nothing changes for the others. -/
theorem Document.Relates.adopt {R : Node → Node → Prop} {d : Document} (h : d.Relates R)
    (hR : ∀ {n n' m m' : Node}, n.Retains n' → m.Retains m' → R n m → R n' m') (htree : d.IsTree)
    {p : Nat} (hp : p < d.size) {new : Node} (hnew : R { new with parent := some p } (d.node p)) :
    (d.adopt p new).Relates R := by
  intro i q n m hn hparent hm
  by_cases hi : i = d.size
  · subst hi
    rw [get?_adopt_new hp] at hn
    cases hn
    cases hparent
    obtain ⟨o, ho, hlike⟩ := exists_retains_of_adopt hm (Nat.ne_of_lt hp)
    rw [node_of_get? ho] at hnew
    exact hR (.refl _) hlike hnew
  · obtain ⟨o, ho, hlike⟩ := exists_retains_of_adopt hn hi
    rw [← hlike.parent_eq] at hparent
    -- the parent is older than the node, so it is not the new one
    have hlt : q < i := htree.parent_lt ho hparent
    have hq : q ≠ d.size := Nat.ne_of_lt (Nat.lt_trans hlt (lt_size_of_get? ho))
    obtain ⟨o', ho', hlike'⟩ := exists_retains_of_adopt hm hq
    exact hR hlike hlike' (h i q o o' ho hparent ho')

/-- A new node is made in its parent, and nothing changes for the others. -/
private theorem Document.IsMadeWith.adopt {v : Vocabulary} {d : Document} (h : d.IsMadeWith v)
    (htree : d.IsTree) {p : Nat} (hp : p < d.size) {new : Node}
    (hnew : new.kind = .element → new.IsMadeIn v (d.node p))
    (hother : new.kind ≠ .element → new.tag = "") : (d.adopt p new).IsMadeWith v := by
  constructor
  · have hmade : d.Relates fun n m => n.kind = .element → n.IsMadeIn v m :=
      fun i q n m hn hparent hm hkind => h.made i q n m hn hkind hparent hm
    intro i q n m hn hkind hparent hm
    exact hmade.adopt Node.IsMadeIn.congr htree hp hnew i q n m hn hparent hm hkind
  · intro i n hn hnone
    by_cases hi : i = d.size
    · subst hi
      rw [get?_adopt_new hp] at hn
      cases hn
      -- the new node has a parent
      cases hnone with
      | inl hkind => exact hother hkind
      | inr hparent => cases hparent
    · obtain ⟨o, ho, hlike⟩ := exists_retains_of_adopt hn hi
      rw [← hlike.kind_eq, ← hlike.parent_eq] at hnone
      rw [← hlike.tag_eq]
      exact h.untagged i o ho hnone

/-- A new node changes nothing about which of the others are foreign. -/
private theorem Document.foreign_node_adopt {d : Document} {p id : Nat} (hp : p < d.size)
    (hid : id < d.size) (new : Node) :
    ((d.adopt p new).node id).foreign = (d.node id).foreign := by
  obtain ⟨n, hn⟩ := exists_get?_of_lt hid
  obtain ⟨n', hn', hlike⟩ := Foreshadows.adopt hp new id n hn
  rw [node_of_get? hn, node_of_get? hn', hlike.foreign_eq]

namespace Construction

variable {v : Vocabulary} {c c' : Construction}

/-- The root and the open elements are there. -/
theorem Ready.lt_size (h : c.Ready) {id : Nat} (hid : id ∈ rootId :: c.openElements) :
    id < c.document.size := by
  cases List.mem_cons.mp hid with
  | inl hroot => rw [hroot]; exact c.document.size_pos
  | inr hid => exact h.sound.lt_size hid

/-! ## Closing elements -/

/-- Closing an element retains all nodes. -/
private theorem closeOne_retains (id : NodeId) (how : Closing) (d : Document) :
    d.Retains (closeOne id how d).1 :=
  .modify fun _ => ⟨⟨rfl, rfl, rfl, rfl⟩, rfl⟩

/-- So does closing several of them. -/
private theorem closeAll_retains (how : Node → Closing) (ids : List NodeId) (d : Document) :
    d.Retains (closeAll how ids d).1 := by
  induction ids generalizing d with
  | nil => exact .refl d
  | cons id ids ih => exact (closeOne_retains id _ d).trans (ih _)

/-- So does an end tag. -/
private theorem closeTag_retains (v : Vocabulary) (name : String) (location : Location)
    (c : Construction) :
    c.document.Retains (c.closeTag v name location).1.document := by
  simp only [closeTag_eq]
  split
  · exact .refl _
  · exact (closeAll_retains _ _ _).trans (closeOne_retains _ _ _)

/-- The new element is put under its parent in a document that has the same nodes as the one
before. -/
theorem openTag_retains (v : Vocabulary) (t : Token) (c : Construction) :
    (c.document.adopt ((c.openElements.dropWhile (isEndedBy v t c)).headD rootId)
      (newElement v t c)).Retains (c.openTag v t).1.document := by
  rw [openTag_eq]
  exact (closeAll_retains _ _ _).appendChild _ _

/-- Storing an attribute retains all nodes and opens none. -/
theorem storeLast_retains (value : Option Token) (c : Construction) :
    c.document.Retains (c.storeLast value).1.document ∧
      (c.storeLast value).1.openElements.Sublist c.openElements := by
  simp only [storeLast]
  split
  · exact ⟨.modify fun _ => ⟨⟨rfl, rfl, rfl, rfl⟩, rfl⟩, List.Sublist.refl _⟩
  · exact ⟨.refl _, List.Sublist.refl _⟩

/-- So does the end of a start tag. -/
private theorem finishOpening_retains (node : NodeId) (t : Token) (c : Construction) :
    c.document.Retains (c.finishOpening node t).1.document ∧
      (c.finishOpening node t).1.openElements.Sublist c.openElements := by
  have hwiden : c.document.Retains (c.document.widen node t.location t.isSelfClosing) :=
    .modify fun _ => ⟨⟨rfl, rfl, rfl, rfl⟩, rfl⟩
  simp only [finishOpening_eq]
  split
  · rename_i top left hopen
    rw [hopen]
    split
    · exact ⟨hwiden.trans (closeOne_retains _ _ _), List.sublist_cons_self top left⟩
    · exact ⟨hwiden, List.Sublist.refl _⟩
  · exact ⟨hwiden, List.Sublist.refl _⟩

/-- So does the end of every tag. -/
theorem finishTag_retains (v : Vocabulary) (t : Token) (c : Construction) :
    c.document.Retains (c.finishTag v t).1.document ∧
    (c.finishTag v t).1.openElements.Sublist c.openElements := by
  simp only [finishTag_eq]
  split
  · exact finishOpening_retains _ t c
  · refine ⟨closeTag_retains v _ _ { c with pending := none }, ?_⟩
    simp only [closeTag_eq]
    split
    · exact List.Sublist.refl _
    · rename_i found left hfound
      have hleft : (found :: left).Sublist c.openElements := by
        rw [← hfound]
        exact List.dropWhile_sublist _
      exact (List.sublist_cons_self found left).trans hleft
  · exact ⟨.refl _, List.Sublist.refl _⟩

/-- Closing what is open and ending the document changes nothing about what the nodes are. -/
theorem finish_retains (v : Vocabulary) (c : Construction) : c.document.Retains (c.finish v).1 := by
  have hstart : c.start.1.document = c.document := congrArg Stage.document (stage_start c)
  rw [finish_eq, ← hstart]
  exact (closeAll_retains _ _ _).trans (.modify fun _ => ⟨⟨rfl, rfl, rfl, rfl⟩, rfl⟩)

/-! ## One token -/

/-- A token opens an element, adds a run of text, or changes nothing about what the nodes are. -/
theorem step_cases (v : Vocabulary) (t : Token) (c : Construction) :
    c.step v t = c.openTag v t ∨ c.step v t = (c.addText t, []) ∨
      c.document.Retains (c.step v t).1.document ∧
      (c.step v t).1.openElements.Sublist c.openElements := by
  cases hkind : t.kind with
  | tagOpen =>
    cases hend : t.isEndTag with
    | false =>
      left
      simp only [step_eq, hkind, hend]
      rfl
    | true =>
      right; right
      simp only [step_eq, hkind, hend, if_true]
      exact ⟨.refl _, List.Sublist.refl _⟩
  | attrName =>
    right; right
    obtain ⟨hd, hids⟩ := storeLast_retains none c
    simp only [step_eq, hkind, expectValue]
    split <;> exact ⟨hd, hids⟩
  | attrValue =>
    right; right
    simp only [step_eq, hkind]
    exact storeLast_retains (some t) c
  | tagClose =>
    right; right
    obtain ⟨hd, hids⟩ := storeLast_retains none c
    obtain ⟨hd', hids'⟩ := finishTag_retains v t (c.storeLast none).1
    simp only [step_eq, hkind]
    exact ⟨hd.trans hd', hids'.trans hids⟩
  | text =>
    right; left
    simp only [step_eq, hkind]
  | comment | doctype =>
    right; right
    simp only [step_eq, hkind]
    exact ⟨.refl _, List.Sublist.refl _⟩

/-- The node around the open elements that are left is the root or an open element. -/
theorem headD_dropWhile_mem (ends : NodeId → Bool) (c : Construction) :
    (c.openElements.dropWhile ends).headD rootId ∈ rootId :: c.openElements := by
  have hsub : (c.openElements.dropWhile ends).Sublist c.openElements := List.dropWhile_sublist _
  cases hleft : c.openElements.dropWhile ends with
  | nil => exact List.mem_cons_self ..
  | cons top left =>
    rw [hleft] at hsub
    exact List.mem_cons_of_mem _ (hsub.subset (List.mem_cons_self ..))

/-- Every element is made in its parent, the root is not foreign, and what is open inside of a
foreign element is foreign. -/
structure Shaded (v : Vocabulary) (c : Construction) : Prop where
  ready : c.Ready
  grown : c.stage.Grown
  made : c.document.IsMadeWith v
  plain : (c.document.node rootId).foreign = false
  nested : c.openElements.Pairwise fun inner outer =>
    (c.document.node outer).foreign = true → (c.document.node inner).foreign = true

namespace Shaded

/-- At the start there is only the root. -/
theorem ofLength (v : Vocabulary) (length : Nat) : (Construction.ofLength length).Shaded v where
  ready := .ofLength length
  grown := .ofLength length
  made := by
    have hroot : ∀ (i : Nat) (n : Node), (Document.ofLength length).get? i = some n →
        n.kind = .root ∧ n.tag = "" := by
      intro i n hn
      have hi : i < 1 := Document.lt_size_of_get? hn
      obtain rfl : i = 0 := by omega
      cases hn
      exact ⟨rfl, rfl⟩
    constructor
    · intro i p n m hn hkind
      rw [(hroot i n hn).1] at hkind
      cases hkind
    · intro i n hn hother
      exact (hroot i n hn).2
  plain := rfl
  nested := .nil

/-- A change that keeps what the nodes are and opens no element. -/
private theorem of_retains (h : c.Shaded v) (hready : c'.Ready) (hgrown : c'.stage.Grown)
    (hd : c.document.Retains c'.document) (hids : c'.openElements.Sublist c.openElements) :
    c'.Shaded v where
  ready := hready
  grown := hgrown
  made := hd.isMadeWith h.made
  plain := by rw [hd.foreign_node, h.plain]
  nested := by
    simp only [hd.foreign_node]
    exact h.nested.sublist hids

/-- Around a node that is not foreign there is nothing foreign. -/
private theorem foreign_outside (h : c.Shaded v)
    (hcurrent : (c.document.node c.current).foreign = false) {id : Nat}
    (hid : id ∈ rootId :: c.openElements) : (c.document.node id).foreign = false := by
  cases List.mem_cons.mp hid with
  | inl hroot => rw [hroot, h.plain]
  | inr hid =>
    cases hopen : c.openElements with
    | nil =>
      rw [hopen] at hid
      cases hid
    | cons top ids =>
      have htop : (c.document.node top).foreign = false := by simpa [current, hopen] using hcurrent
      rw [hopen] at hid
      cases List.mem_cons.mp hid with
      | inl heq => rw [heq, htop]
      | inr hmem =>
        have hnested := h.nested
        rw [hopen] at hnested
        have hin := (List.pairwise_cons.mp hnested).1 id hmem
        rw [htop] at hin
        simpa using hin

/-- The node that a start tag looks at is as foreign as the one that the new element comes to stand
in.  Inside of foreign content nothing is ended, and elsewhere what is around is not foreign
either. -/
theorem foreign_parent (h : c.Shaded v) (t : Token) :
    (c.document.node ((c.openElements.dropWhile (isEndedBy v t c)).headD rootId)).foreign =
      (c.document.node c.current).foreign := by
  cases hforeign : (c.document.node c.current).foreign with
  | false => exact h.foreign_outside hforeign (headD_dropWhile_mem _ c)
  | true =>
    have hnone : ∀ id, isEndedBy v t c id = false := by
      intro id
      simp [isEndedBy, hforeign]
    have hall : c.openElements.dropWhile (isEndedBy v t c) = c.openElements := by
      cases c.openElements with
      | nil => rfl
      | cons id ids => simp [hnone]
    rw [hall]
    exact hforeign

/-- A start tag. -/
private theorem openTag (h : c.Shaded v) {t : Token} (hready : (c.openTag v t).1.Ready)
    (hgrown : (c.openTag v t).1.stage.Grown) : (c.openTag v t).1.Shaded v := by
  have hretains := openTag_retains v t c
  have hparent := h.foreign_parent t
  have hpsize := h.ready.lt_size (headD_dropWhile_mem (isEndedBy v t c) c)
  have hleft : (c.openElements.dropWhile (isEndedBy v t c)).Sublist c.openElements :=
    List.dropWhile_sublist _
  have hmem : ∀ id ∈ c.openElements.dropWhile (isEndedBy v t c), id ∈ rootId :: c.openElements :=
    fun id hid => List.mem_cons_of_mem _ (hleft.subset hid)
  generalize (c.openElements.dropWhile (isEndedBy v t c)).headD rootId =
    p at hretains hparent hpsize
  have hmade : (newElement v t c).IsMadeIn v (c.document.node p) := by
    refine ⟨t.tagName, ?_, ?_, ?_⟩ <;> rw [hparent] <;> rfl
  have hadopt := h.made.adopt h.grown.tree hpsize (fun _ => hmade) (fun hkind => absurd rfl hkind)
  -- the nodes that were there are as foreign as they were
  have hkeeps : ∀ id ∈ rootId :: c.openElements,
      ((c.openTag v t).1.document.node id).foreign = (c.document.node id).foreign := by
    intro id hid
    rw [hretains.foreign_node, Document.foreign_node_adopt hpsize (h.ready.lt_size hid)]
  refine ⟨hready, hgrown, hretains.isMadeWith hadopt, ?_, ?_⟩
  · rw [hkeeps rootId (List.mem_cons_self ..), h.plain]
  · rw [openElements_openTag, List.pairwise_cons]
    constructor
    · intro outer houter hforeign
      have houter' := hmem outer houter
      rw [hkeeps outer houter'] at hforeign
      rw [hretains.foreign_node, Document.node_of_get? (Document.get?_adopt_new hpsize _)]
      -- something foreign is open, so the current node is foreign, and so is what is made in it
      cases hcurrent : (c.document.node c.current).foreign with
      | false =>
        rw [h.foreign_outside hcurrent houter'] at hforeign
        cases hforeign
      | true => simp [newElement, Node.newElement, hcurrent]
    · refine (h.nested.sublist hleft).imp_of_mem fun {inner outer} hinner houter hin => ?_
      rw [hkeeps outer (hmem _ houter), hkeeps inner (hmem _ hinner)]
      exact hin

/-- A run of text, which is no element. -/
private theorem addText (h : c.Shaded v) {t : Token} (hready : (c.addText t).Ready)
    (hgrown : (c.addText t).stage.Grown) :
    (c.addText t).Shaded v := by
  have hcurrent : c.current < c.document.size := h.ready.sound.head_lt_size
  have hkeeps : ∀ id ∈ rootId :: c.openElements,
      ((c.addText t).document.node id).foreign = (c.document.node id).foreign := fun id hid =>
    Document.foreign_node_adopt hcurrent (h.ready.lt_size hid) _
  refine ⟨hready, hgrown, h.made.adopt h.grown.tree hcurrent ?_ fun _ => rfl, ?_, ?_⟩
  · intro hkind
    cases hkind
  · rw [hkeeps rootId (List.mem_cons_self ..), h.plain]
  · refine h.nested.imp_of_mem fun {inner outer} hinner houter hin => ?_
    rw [hkeeps outer (List.mem_cons_of_mem _ houter), hkeeps inner (List.mem_cons_of_mem _ hinner)]
    exact hin

/-- Whatever the token. -/
theorem step (h : c.Shaded v) (t : Token) : (c.step v t).1.Shaded v := by
  have hready := h.ready.step v t
  have hgrown := (h.grown.run (step_run (v := v) h.ready t) h.ready.sound).1
  obtain hopen | htext | ⟨hd, hids⟩ := step_cases v t c
  · rw [hopen] at hready hgrown ⊢
    exact h.openTag hready hgrown
  · rw [htext] at hready hgrown ⊢
    exact h.addText hready hgrown
  · exact h.of_retains hready hgrown hd hids

/-- The first event changes nothing. -/
theorem start (h : c.Shaded v) : c.start.1.Shaded v := by
  have hready := h.ready.start
  simp only [Construction.start] at hready ⊢
  split
  · exact h
  · rw [if_neg ‹_›] at hready
    exact ⟨hready, h.grown, h.made, h.plain, h.nested⟩

/-- All tokens, by induction from the first one on. -/
private theorem takeIn (h : c.Shaded v) (ts : List Token) : (takeIn v ts c).1.Shaded v := by
  induction ts generalizing c with
  | nil => exact h
  | cons t ts ih => exact ih (h.start.step t)

end Shaded

/-- Every element of a document is what a start tag makes inside its parent, whatever the tokens. -/
theorem record_isMadeWith (v : Vocabulary) (ts : List Token) (length : Nat) :
    (record v ts length).1.IsMadeWith v := by
  rw [record_eq]
  exact (finish_retains v _).isMadeWith ((Shaded.ofLength v length).takeIn ts).made

end Construction

/-! ## Models -/

/-- In foreign content an element has a model exactly if its tag is that of an element that begins
foreign content, and then it has that model. -/
private theorem Document.IsMadeWith.modelOf?_eq {v : Vocabulary} {d : Document} (h : d.IsMadeWith v)
    {i : Nat} {n parent : Node} (hn : d.get? i = some n) (helement : n.isElement = true)
    (hparent : d.parent? i = some parent) (hforeign : parent.foreign = true) :
    v.modelOf? n = (v.find? n.tag).filter (·.foreign) := by
  have hkind : n.kind = .element := by simpa [Node.isElement] using helement
  obtain ⟨p, hp, hm⟩ : ∃ p, n.parent = some p ∧ d.get? p = some parent := by
    simpa [Document.parent?, hn, Option.bind_eq_some_iff] using hparent
  -- the element is foreign because its parent is
  obtain ⟨written, -, hn', -⟩ := h.made i p n parent hn hkind hp hm
  have hinside : n.foreign = true := by simp [hn', hforeign]
  cases hmodel : v.find? n.tag with
  | none => simp [Vocabulary.modelOf?, helement, hmodel]
  | some model =>
    cases hbegins : model.foreign <;>
      simp [Vocabulary.modelOf?, helement, hmodel, hinside, hbegins, Option.filter]

/-- A source that can be cut into tokens is parsed, and an element whose parent is foreign has a
model exactly if its tag is that of an element that begins foreign content.  All other elements in
foreign content have none. -/
theorem modelOf?_in_foreign (v : Vocabulary) {source : String}
    (h : (tokenize source).failure = none) :
    ∃ d es, parse v source = .ok (d, es) ∧ ∀ i n parent, d.get? i = some n → n.isElement = true →
      d.parent? i = some parent → parent.foreign = true →
      v.modelOf? n = (v.find? n.tag).filter (·.foreign) := by
  rw [parse_eq h]
  refine ⟨_, _, rfl, fun i n parent hn helement hparent hforeign => ?_⟩
  exact (Construction.record_isMadeWith v _ _).modelOf?_eq hn helement hparent hforeign

/-- A paragraph and a picture in a picture: the paragraph has no model, the inner picture has
one. -/
theorem modelOf?_in_foreign_picture :
    let source := "<svg><p></p><svg></svg></svg>"
    ∃ v, Vocabulary.htmlWith .empty = .ok v ∧ (tokenize source).failure = none ∧
      ((parse v source).toOption.map fun made => [2, 3].map fun i =>
        ((made.1.parent? i).map Node.foreign,
          ((made.1.get? i).bind v.modelOf?).map ElementModel.tag)) =
          some [(some true, none), (some true, some "svg")] ∧
      ∃ d es, parse v source = .ok (d, es) ∧ ∀ i n parent, d.get? i = some n → n.isElement = true →
        d.parent? i = some parent → parent.foreign = true →
        v.modelOf? n = (v.find? n.tag).filter (·.foreign) := by
  intro source
  have hscan : (tokenize source).failure = none := by decide +kernel
  have hmodels :
    ((Vocabulary.htmlWith .empty).toOption.bind fun v => (parse v source).toOption.map fun made =>
      [2, 3].map fun i =>
        ((made.1.parent? i).map Node.foreign,
          ((made.1.get? i).bind v.modelOf?).map ElementModel.tag)) =
          some [(some true, none), (some true, some "svg")] := by
    rw [Vocabulary.htmlWith_empty]
    decide +kernel
  cases hv : Vocabulary.htmlWith .empty with
  | error e => rw [hv] at hmodels; cases hmodels
  | ok v =>
    rw [hv] at hmodels
    exact ⟨v, rfl, hscan, hmodels, modelOf?_in_foreign v hscan⟩

/-- A picture inside a picture has a model, although its parent is foreign. -/
theorem nested_svg_has_model :
    ∃ v d es n parent, Vocabulary.htmlWith .empty = .ok v ∧
    parse v "<svg><svg></svg></svg>" = .ok (d, es) ∧
      d.get? 2 = some n ∧ n.isElement = true ∧ d.parent? 2 = some parent ∧ parent.foreign = true ∧
      v.modelOf? n ≠ none := by
  have hmodels : ((Vocabulary.htmlWith .empty).toOption.bind fun v =>
      (parse v "<svg><svg></svg></svg>").toOption.bind fun made => (made.1.get? 2).bind fun n =>
        (made.1.parent? 2).map fun parent => (n.isElement, parent.foreign, (v.modelOf? n).isSome)) =
          some (true, true, true) := by
    rw [Vocabulary.htmlWith_empty]
    decide +kernel
  cases hv : Vocabulary.htmlWith .empty with
  | error e => rw [hv] at hmodels; cases hmodels
  | ok v =>
    cases hparsed : parse v "<svg><svg></svg></svg>" with
    | error e =>
      rw [hv] at hmodels; simp only [Except.toOption, Option.bind_some, hparsed] at hmodels;
        cases hmodels
    | ok made =>
      rw [hv] at hmodels
      simp only [Except.toOption, Option.bind_some, hparsed, Option.bind_eq_some_iff,
        Option.map_eq_some_iff, Prod.mk.injEq] at hmodels
      obtain ⟨n, hn, parent, hparent, helement, hforeign, hmodel⟩ := hmodels
      refine ⟨v, made.1, made.2, n, parent, rfl, hparsed, hn, helement, hparent, hforeign, ?_⟩
      intro hnone
      rw [hnone] at hmodel
      cases hmodel

end HtmlLint
