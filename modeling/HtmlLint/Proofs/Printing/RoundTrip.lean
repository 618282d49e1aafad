import HtmlLint.Proofs.Construction.Run
import HtmlLint.Proofs.Printing.Forest

/-!
# Parsing undoes printing

A document presents a forest if its nodes, numbered from the root on in the order in which they are
written, are those of the forest (`Document.Presents`); there is at most one such forest.  The
document that is parsed from the printed form of a forest presents this forest, and nothing is
complained about (`parse_print`).

The construction is followed token by token.  `Construction.TakesIn` says that tokens are taken in
without a complaint, and `Document.Gains` what the nodes of a forest change in a document: they are
new, they become the last children of one node, and all other nodes stay as they are.
-/

namespace HtmlLint

/-! ## Forests in documents -/

namespace Forest

/-- The number of nodes. -/
def size : Forest → Nat
  | nil => 0
  | text _ next => next.size + 1
  | element _ _ content next => content.size + next.size + 1

/-- The numbers of the nodes that stand side by side, if all nodes are numbered as they are
written. -/
def numbers (i : Nat) : Forest → List NodeId
  | nil => []
  | text _ next => i :: next.numbers (i + 1)
  | element _ _ content next => i :: next.numbers (i + 1 + content.size)

end Forest

/-- The key of an attribute and its value, if it has one. -/
def Attribute.pair (a : Attribute) : String × Option String :=
  (a.key, a.value.map AttributeValue.text)

/-- The node is a run of text. -/
structure Node.IsText (n : Node) (content : String) : Prop where
  kind_eq : n.kind = .text content
  children_eq : n.children = []

/-- The node is an element with this tag and these attributes. -/
structure Node.IsElementOf (n : Node) (tag : String)
    (attributes : List (String × String)) : Prop where
  kind_eq : n.kind = .element
  tag_eq : n.tag = tag
  attributes_eq : n.attributes.map Attribute.pair = attributes.map fun a => (a.1, some a.2)

namespace Document

/-- From the given number on, the nodes of the document are those of the forest, with the given
parent. -/
def Shows (d : Document) (parent : NodeId) (i : Nat) : Forest → Prop
  | .nil => True
  | .text content next =>
    (∃ n, d.get? i = some n ∧ n.parent = some parent ∧ n.IsText content) ∧
      d.Shows parent (i + 1) next
  | .element tag attributes content next =>
    (∃ n, d.get? i = some n ∧ n.parent = some parent ∧ n.IsElementOf tag attributes ∧
      n.children = content.numbers (i + 1)) ∧
    d.Shows i (i + 1) content ∧ d.Shows parent (i + 1 + content.size) next

/-- The document has the nodes of the forest under its root, and no others. -/
structure Presents (d : Document) (forest : Forest) : Prop where
  size_eq : d.size = 1 + forest.size
  children_eq : d.root.children = forest.numbers 1
  shows : d.Shows rootId 1 forest

/-- Only the nodes of the forest matter. -/
private theorem Shows.congr {d d' : Document} {parent : NodeId} {i : Nat} {forest : Forest}
    (h : d.Shows parent i forest)
    (hd : ∀ j : Nat, i ≤ j → j < i + forest.size → d'.get? j = d.get? j) :
    d'.Shows parent i forest := by
  induction forest generalizing parent i with
  | nil => trivial
  | text content next ih =>
    obtain ⟨⟨n, hn, hnode⟩, hnext⟩ := h
    simp only [Forest.size] at hd
    refine ⟨⟨n, by rw [hd i (by omega) (by omega), hn], hnode⟩, ih hnext fun j hj hlt => ?_⟩
    exact hd j (by omega) (by omega)
  | element tag attributes content next ihcontent ihnext =>
    obtain ⟨⟨n, hn, hnode⟩, hcontent, hnext⟩ := h
    simp only [Forest.size] at hd
    refine ⟨⟨n, by rw [hd i (by omega) (by omega), hn], hnode⟩,
      ihcontent hcontent fun j hj hlt => ?_, ihnext hnext fun j hj hlt => ?_⟩
    · exact hd j (by omega) (by omega)
    · exact hd j (by omega) (by omega)

/-- What is shown under a node determines the forest. -/
private theorem Shows.unique {d : Document} {parent : NodeId} {i : Nat} {forest other : Forest}
    (h : d.Shows parent i forest) (h' : d.Shows parent i other)
    (hnumbers : forest.numbers i = other.numbers i) : forest = other := by
  induction forest generalizing parent i other with
  | nil =>
    cases other with
    | nil => rfl
    | text | element => cases hnumbers
  | text content next ih =>
    cases other with
    | nil => cases hnumbers
    | text content' next' =>
      obtain ⟨⟨n, hn, -, htext⟩, hnext⟩ := h
      obtain ⟨⟨n', hn', -, htext'⟩, hnext'⟩ := h'
      obtain rfl : n = n' := Option.some.inj (hn.symm.trans hn')
      have hcontent : content = content' :=
        NodeKind.text.inj (htext.kind_eq.symm.trans htext'.kind_eq)
      rw [hcontent, ih hnext hnext' (List.cons.inj hnumbers).2]
    | element =>
      obtain ⟨⟨n, hn, -, htext⟩, -⟩ := h
      obtain ⟨⟨n', hn', -, helement, -⟩, -⟩ := h'
      obtain rfl : n = n' := Option.some.inj (hn.symm.trans hn')
      cases htext.kind_eq.symm.trans helement.kind_eq
  | element tag attributes content next ihcontent ihnext =>
    cases other with
    | nil => cases hnumbers
    | text =>
      obtain ⟨⟨n, hn, -, helement, -⟩, -⟩ := h
      obtain ⟨⟨n', hn', -, htext⟩, -⟩ := h'
      obtain rfl : n = n' := Option.some.inj (hn.symm.trans hn')
      cases htext.kind_eq.symm.trans helement.kind_eq
    | element tag' attributes' content' next' =>
      obtain ⟨⟨n, hn, -, helement, hchildren⟩, hcontent, hnext⟩ := h
      obtain ⟨⟨n', hn', -, helement', hchildren'⟩, hcontent', hnext'⟩ := h'
      obtain rfl : n = n' := Option.some.inj (hn.symm.trans hn')
      have htag : tag = tag' := helement.tag_eq.symm.trans helement'.tag_eq
      have hattributes : attributes = attributes' := by
        refine (List.map_inj_right ?_).mp
          (helement.attributes_eq.symm.trans helement'.attributes_eq)
        rintro ⟨key, value⟩ ⟨key', value'⟩ hpair
        simpa using hpair
      -- the same children give the same content, and then the next nodes have the same numbers
      obtain rfl : content = content' :=
        ihcontent hcontent hcontent' (hchildren.symm.trans hchildren')
      rw [htag, hattributes, ihnext hnext hnext' (List.cons.inj hnumbers).2]

/-- A document presents at most one forest. -/
private theorem Presents.unique {d : Document} {forest other : Forest} (h : d.Presents forest)
    (h' : d.Presents other) :
    forest = other :=
  h.shows.unique h'.shows (h.children_eq.symm.trans h'.children_eq)

/-! ## What a forest changes -/

/-- The second document has the nodes of the forest as new nodes, which are the last children of the
given node.  All other nodes are as in the first document. -/
structure Gains (d : Document) (p : NodeId) (forest : Forest) (d' : Document) : Prop where
  size_eq : d'.size = d.size + forest.size
  parent_eq : d'.get? p = (d.get? p).map fun n =>
    { n with children := n.children ++ forest.numbers d.size }
  others_eq : ∀ i : Nat, i < d.size → i ≠ p → d'.get? i = d.get? i
  shows : d'.Shows p d.size forest

namespace Gains

variable {d d₁ d' : Document} {p : Nat} {n : Node}

/-- A document that does not change gains no nodes. -/
private theorem nil (d : Document) (p : NodeId) : d.Gains p .nil d where
  size_eq := rfl
  parent_eq := by simp [Forest.numbers]
  others_eq _ _ _ := rfl
  shows := trivial

/-- A run of text and what comes after it. -/
private theorem text {content : String} {next : Forest} (hp : p < d.size) (hn : n.IsText content)
    (h : (d.adopt p n).Gains p next d') : d.Gains p (.text content next) d' where
  size_eq := by
    rw [h.size_eq, size_adopt, Forest.size]
    omega
  parent_eq := by
    obtain ⟨m, hm⟩ := exists_get?_of_lt hp
    rw [h.parent_eq, get?_adopt_parent hm, hm, size_adopt]
    simp [Forest.numbers]
  others_eq i hi hip := by
    rw [h.others_eq i (by rw [size_adopt]; omega) hip, get?_adopt_of_ne hip (by omega)]
  shows := by
    have hnew : d'.get? d.size = some { n with parent := some p } := by
      rw [h.others_eq d.size (by rw [size_adopt]; omega) (by omega), get?_adopt_new hp]
    have hnext := h.shows
    rw [size_adopt] at hnext
    exact ⟨⟨_, hnew, rfl, hn.kind_eq, hn.children_eq⟩, hnext⟩

/-- An element with its content and what comes after it.  Before that the element is closed. -/
theorem element {tag : String} {attributes : List (String × String)} {content next : Forest}
    {kind : CloseKind} {stop : Nat} (hp : p < d.size) (hn : n.IsElementOf tag attributes)
    (hempty : n.children = []) (hcontent : (d.adopt p n).Gains d.size content d₁)
    (hnext : (d₁.close d.size kind stop).Gains p next d') :
    d.Gains p (.element tag attributes content next) d' := by
  have hsize : d₁.size = d.size + 1 + content.size := by rw [hcontent.size_eq, size_adopt]
  -- the content and the closing leave the older nodes alone
  have holder : ∀ i : Nat, i < d.size →
      (d₁.close d.size kind stop).get? i = (d.adopt p n).get? i := by
    intro i hi
    rw [get?_close, if_neg (by omega), hcontent.others_eq i (by rw [size_adopt]; omega) (by omega)]
  have hnumbers : (Forest.element tag attributes content next).numbers d.size =
      d.size :: next.numbers d₁.size := by rw [hsize]; rfl
  constructor
  · rw [hnext.size_eq, size_close, hsize, Forest.size]
    omega
  · obtain ⟨m, hm⟩ := exists_get?_of_lt hp
    rw [hnext.parent_eq, holder p hp, get?_adopt_parent hm, hm, size_close, hnumbers]
    simp
  · intro i hi hip
    rw [hnext.others_eq i (by rw [size_close]; omega) hip, holder i hi,
      get?_adopt_of_ne hip (by omega)]
  · -- the element shows its content as children
    have hshown : d'.get? d.size = some { n with
        parent := some p, children := content.numbers (d.size + 1), closed := some kind,
        endOffset := some (max stop n.location.stop) } := by
      rw [hnext.others_eq d.size (by rw [size_close]; omega) (by omega), get?_close, if_pos rfl,
        hcontent.parent_eq, get?_adopt_new hp, size_adopt]
      simp [hempty]
    have hinside : d'.Shows d.size (d.size + 1) content := by
      have hshows := hcontent.shows
      rw [size_adopt] at hshows
      refine hshows.congr fun j hj hlt => ?_
      rw [hnext.others_eq j (by rw [size_close]; omega) (by omega), get?_close, if_neg (by omega)]
    have hafter := hnext.shows
    rw [size_close, hsize] at hafter
    exact ⟨⟨_, hshown, rfl, ⟨hn.kind_eq, hn.tag_eq, hn.attributes_eq⟩, rfl⟩, hinside, hafter⟩

end Gains

/-- A new last child changes as if it had been changed before. -/
private theorem modify_adopt {d : Document} {p : Nat} (hp : p < d.size) (n : Node) {f : Node → Node}
    (hf : ∀ parent, f { n with parent := parent } = { f n with parent := parent }) :
    (d.adopt p n).modify d.size f = d.adopt p (f n) := by
  refine eq_of_get?_eq rfl fun i => ?_
  rw [get?_modify]
  by_cases hi : i = d.size
  · rw [if_pos hi.symm, hi, get?_adopt_new hp, get?_adopt_new hp, ← hf]
    rfl
  · rw [if_neg (Ne.symm hi)]
    by_cases hip : i = p
    · obtain ⟨m, hm⟩ := exists_get?_of_lt hp
      rw [hip, get?_adopt_parent hm, get?_adopt_parent hm]
    · rw [get?_adopt_of_ne hip hi, get?_adopt_of_ne hip hi]

end Document

/-! ## Taking in tokens -/

/-- An attribute of a new name comes last. -/
private theorem Node.storeAttribute_of_new {a : Attribute} {l : List Attribute}
    (h : ∀ b ∈ l, Text.sameName b.key a.key = false) : storeAttribute a l = l ++ [a] := by
  induction l with
  | nil => rfl
  | cons b l ih =>
    simp only [List.forall_mem_cons] at h
    rw [storeAttribute, h.1, ih h.2]
    rfl

namespace Token

variable {t : Token} {tag : String}

/-- What the first token of a start tag says. -/
private theorem of_startTag (hname : IsElementName tag)
    (ht : t.shape = (.tagOpen, String.ofList ('<' :: tag.toList))) :
    t.kind = .tagOpen ∧ t.isEndTag = false ∧ t.tagName = tag := by
  obtain ⟨c, cs, hcons, hc⟩ := hname.exists_cons
  have hslash : c ≠ '/' := by rintro rfl; cases hc
  have hkind : t.kind = .tagOpen := congrArg Prod.fst ht
  have htext : t.text.toList = '<' :: c :: cs := by
    rw [show t.text = _ from congrArg Prod.snd ht, String.toList_ofList, hcons]
  refine ⟨hkind, ?_, ?_⟩
  · simp [isEndTag, htext, Text.startsWith, List.isPrefixOf, hslash.symm]
  · rw [← String.ofList_toList (s := tag), hcons, tagName, htext]
    split <;> simp_all

/-- What the first token of an end tag says. -/
private theorem of_endTag (ht : t.shape = (.tagOpen, String.ofList ('<' :: '/' :: tag.toList))) :
    t.kind = .tagOpen ∧ t.isEndTag = true ∧ t.tagName = tag := by
  have hkind : t.kind = .tagOpen := congrArg Prod.fst ht
  have htext : t.text.toList = '<' :: '/' :: tag.toList := by
    rw [show t.text = _ from congrArg Prod.snd ht, String.toList_ofList]
  refine ⟨hkind, ?_, ?_⟩
  · simp [isEndTag, hkind, htext, Text.startsWith, List.isPrefixOf]
  · simp [tagName, htext]

/-- What the token of a value in quotes says. -/
private theorem attrValue_of_quoted {value : String}
    (ht : t.text = String.ofList ('"' :: value.toList ++ ['"'])) :
    t.attrValue = (value, .double) := by
  simp [attrValue, between?, ht]

end Token

namespace Construction

variable {v : Vocabulary} {c c' c'' : Construction} {ts ts' : List Token} {t : Token}

/-- Taking in the tokens leads from one construction to another, with nothing to complain about. -/
structure TakesIn (v : Vocabulary) (c : Construction) (ts : List Token)
    (c' : Construction) : Prop where
  eq : (takeIn v ts c).1 = c'
  quiet : ∀ m ∈ (takeIn v ts c).2, m.event.kind ≠ .parseError

namespace TakesIn

/-- Without tokens nothing happens. -/
private theorem refl (v : Vocabulary) (c : Construction) : TakesIn v c [] c :=
  ⟨rfl, by simp [takeIn]⟩

/-- Tokens may be taken in in two parts. -/
private theorem trans (h : TakesIn v c ts c') (h' : TakesIn v c' ts' c'') :
    TakesIn v c (ts ++ ts') c'' := by
  obtain ⟨rfl, hquiet⟩ := h
  obtain ⟨rfl, hquiet'⟩ := h'
  constructor
  · rw [takeIn_append]
  · rw [takeIn_append]
    intro m hm
    cases List.mem_append.mp hm with
    | inl hm => exact hquiet m hm
    | inr hm => exact hquiet' m hm

/-- One token that brings no error. -/
private theorem of_step (ms : List Moment) (hs : c.started = true) (h : c.step v t = (c', ms))
    (hquiet : ∀ m ∈ ms, m.event.kind ≠ .parseError) : TakesIn v c [t] c' := by
  have htake : takeIn v [t] c = (c', ms) := by
    simp only [takeIn, push_of_started hs, h, List.append_nil]
  exact ⟨by rw [htake], by rw [htake]; exact hquiet⟩

end TakesIn

/-! ## A start tag -/

/-- The construction before the nodes of a forest come: nothing is pending, the current node is
foreign or not, and outside of foreign content the current element has the given model. -/
structure Awaits (v : Vocabulary) (c : Construction) (around : Option ElementModel)
    (inForeign : Bool) : Prop where
  ready : c.Ready
  started : c.started = true
  pending : c.pending = none
  foreign : (c.document.node c.current).foreign = inForeign
  model : inForeign = false → ∀ id, c.openElements.head? = some id →
    v.modelOf? (c.document.node id) = around

/-- In the midst of the start tag of a new element. -/
def opening (c : Construction) (n : Node) : Construction :=
  { c with
    document := c.document.adopt c.current n
    openElements := c.document.size :: c.openElements
    pending := some (.opening c.document.size none) }

/-- A start tag that ends no open element. -/
private theorem openTag_eq_opening
    (h : ∀ id, c.openElements.head? = some id → isEndedBy v t c id = false) :
    c.openTag v t = (c.opening (newElement v t c),
      [⟨.tagOpen c.document.size t.location, (c.opening (newElement v t c)).document⟩]) := by
  have hsplit : c.openElements.takeWhile (isEndedBy v t c) = [] ∧
      c.openElements.dropWhile (isEndedBy v t c) = c.openElements := by
    cases hopen : c.openElements with
    | nil => exact ⟨rfl, rfl⟩
    | cons id ids =>
      have hid := h id (by rw [hopen]; rfl)
      exact ⟨List.takeWhile_cons_of_neg (by simp [hid]), List.dropWhile_cons_of_neg (by simp [hid])⟩
  rw [openTag_eq, hsplit.1, hsplit.2]
  rfl

variable {around : Option ElementModel} {inForeign : Bool} {tag : String}

/-- The element that a written start tag makes is the one that was meant. -/
private theorem newElement_eq (hc : c.Awaits v around inForeign) (hname : IsElementName tag)
    (ht : t.tagName = tag) :
    newElement v t c =
      .newElement c.document.size tag t.location (v.isForeignIn inForeign tag)
      (v.isVoidIn inForeign tag) := by
  simp only [newElement, hc.foreign, ht, hname.foldCase_eq, ite_self]
  rfl

/-- The current element is not ended by an element that may stand in it. -/
private theorem isEndedBy_eq_false (hc : c.Awaits v around inForeign) (hname : IsElementName tag)
    (ht : t.tagName = tag) (hcloses : inForeign = false → around.any (·.isClosedBy tag) = false)
    (id : NodeId) (hid : c.openElements.head? = some id) : isEndedBy v t c id = false := by
  cases inForeign with
  | true => simp [isEndedBy, hc.foreign]
  | false =>
    have hlt : id < c.document.size := hc.ready.sound.lt_size (List.mem_of_mem_head? hid)
    have hnode : (c.document.push (newElement v t c)).node id = c.document.node id := by
      obtain ⟨n, hn⟩ := Document.exists_get?_of_lt hlt
      rw [Document.node_of_get? hn,
        Document.node_of_get? (by rw [Document.get?_push_of_lt hlt, hn])]
    have htag : (newElement v t c).tag = tag := by rw [newElement_eq hc hname ht]; rfl
    rw [isEndedBy, htag, hnode, endsBefore, hc.model rfl id hid, hcloses rfl, Bool.and_false]

/-- An attribute is stored on the element whose start tag it stands in. -/
private theorem attribute_takesIn {n : Node} {a : String × String} {name value : Token}
    (hs : c.started = true) (hp : c.current < c.document.size)
    (hname : name.shape = (.attrName, a.1))
    (hvalue : value.shape = (.attrValue, String.ofList ('"' :: a.2.toList ++ ['"']))) :
    ∃ stored : Attribute, stored.pair = (a.1, some a.2) ∧
      TakesIn v (c.opening n) [name, value]
        (c.opening { n with attributes := Node.storeAttribute stored n.attributes }) := by
  have hnameKind : name.kind = .attrName := congrArg Prod.fst hname
  have hvalueKind : value.kind = .attrValue := congrArg Prod.fst hvalue
  have hquoted := Token.attrValue_of_quoted (show value.text = _ from congrArg Prod.snd hvalue)
  let stored : Attribute := ⟨name.text, name.location, some ⟨a.2, .double, value.location⟩⟩
  have hdocument : (c.opening n).document.setAttribute c.document.size stored =
      c.document.adopt c.current { n with attributes := Node.storeAttribute stored n.attributes } :=
    Document.modify_adopt hp n fun _ => rfl
  -- the key waits for its value, and then both are stored
  have hfirst : TakesIn v (c.opening n) [name]
      { c.opening n with
        pending := some (.opening c.document.size (some ⟨name.text, name.location⟩)) } := by
    refine .of_step [] hs ?_ (by simp)
    simp only [step_eq, hnameKind]
    rfl
  have hsecond : TakesIn v
      { c.opening n with
        pending := some (.opening c.document.size (some ⟨name.text, name.location⟩)) } [value]
      (c.opening { n with attributes := Node.storeAttribute stored n.attributes }) := by
    refine .of_step [⟨.attr c.document.size stored, (c.opening n).document⟩] hs ?_
      (by simp [Event.kind])
    simp only [step_eq, hvalueKind, storeLast, Option.map_some, hquoted]
    rw [show (⟨name.text, name.location, some ⟨a.2, .double, value.location⟩⟩ : Attribute) =
      stored from rfl, hdocument]
    rfl
  refine ⟨stored, ?_, hfirst.trans hsecond⟩
  rw [Attribute.pair, show stored.key = a.1 from congrArg Prod.snd hname]
  rfl

/-- Attributes of different keys are stored in their order. -/
private theorem attributes_takesIn {n : Node} {attributes : List (String × String)}
    (hs : c.started = true) (hp : c.current < c.document.size)
    (hts : ts.map Token.shape = attributes.flatMap Forest.attributeShapes)
    (hdistinct : attributes.Pairwise fun a b => Text.sameName a.1 b.1 = false)
    (hnew : ∀ b ∈ n.attributes, ∀ a ∈ attributes, Text.sameName b.key a.1 = false) :
    ∃ stored : List Attribute, stored.map Attribute.pair =
      attributes.map (fun a => (a.1, some a.2)) ∧
      TakesIn v (c.opening n) ts (c.opening { n with attributes := n.attributes ++ stored }) := by
  induction attributes generalizing ts n with
  | nil =>
    obtain rfl : ts = [] := List.map_eq_nil_iff.mp hts
    refine ⟨[], rfl, ?_⟩
    rw [List.append_nil]
    exact .refl v _
  | cons a attributes ih =>
    obtain ⟨name, later, rfl, hname, hlater⟩ := List.map_eq_cons_iff.mp hts
    obtain ⟨value, ts, rfl, hvalue, hts⟩ := List.map_eq_cons_iff.mp hlater
    obtain ⟨hfirst, hdistinct⟩ := List.pairwise_cons.mp hdistinct
    obtain ⟨stored, hpair, htakes⟩ := attribute_takesIn (v := v) (n := n) hs hp hname hvalue
    have hkey : stored.key = a.1 := congrArg Prod.fst hpair
    -- no attribute that is there has the key of this one, and neither has one that is still to come
    rw [Node.storeAttribute_of_new fun b hb =>
      by rw [hkey]; exact hnew b hb a (List.mem_cons_self ..)] at htakes
    obtain ⟨others, hothers, hall⟩ :=
      ih (n := { n with attributes := n.attributes ++ [stored] }) hts hdistinct
      fun b hb x hx => by
        cases List.mem_append.mp hb with
        | inl hb => exact hnew b hb x (List.mem_cons_of_mem _ hx)
        | inr hb =>
          rw [List.mem_singleton.mp hb, hkey]
          exact hfirst x hx
    refine ⟨stored :: others, by rw [List.map_cons, List.map_cons, hpair, hothers], ?_⟩
    rw [List.append_assoc] at hall
    exact htakes.trans hall

/-- Closing one element without an error is nothing to complain about. -/
private theorem closeOne_quiet (id : NodeId) (d : Document) {how : Closing} (h : how.error = none) :
    ∀ m ∈ (closeOne id how d).2, m.event.kind ≠ .parseError := by
  simp [closeOne, h, Event.kind]

/-- The end of a start tag: the element stays open, or it is closed if it never has content. -/
private theorem tagClose_takesIn {n : Node} (hs : c.started = true) (hpending : c.pending = none)
    (hp : c.current < c.document.size) (ht : t.shape = (.tagClose, ">")) :
    let widened := { n with location := n.location.extendTo t.location, selfClosed := false }
    (n.void = true → TakesIn v (c.opening n) [t] { c with
      document := (c.document.adopt c.current widened).close c.document.size .void
        t.location.stop }) ∧
    (n.void = false → TakesIn v (c.opening n) [t] { c with
      document := c.document.adopt c.current widened,
      openElements := c.document.size :: c.openElements }) := by
  intro widened
  have hkind : t.kind = .tagClose := congrArg Prod.fst ht
  have hselfClosing : t.isSelfClosing = false := by
    rw [Token.isSelfClosing, show t.text = ">" from congrArg Prod.snd ht]
    simp
  -- widening a node that was just placed is placing the wider one
  have hdocument : (c.opening n).document.modify c.document.size (fun n =>
      { n with location := n.location.extendTo t.location, selfClosed := false }) =
        c.document.adopt c.current widened :=
    Document.modify_adopt hp n fun _ => rfl
  have hnode : (c.document.adopt c.current widened).node c.document.size =
      { widened with parent := some c.current } :=
        Document.node_of_get? (Document.get?_adopt_new hp widened)
  have hstep : (c.opening n).step v t = (c.opening n).finishOpening c.document.size t := by
    have hstored : (c.opening n).storeLast none = (c.opening n, []) := rfl
    have hfinish : (c.opening n).finishTag v t =
        (c.opening n).finishOpening c.document.size t := rfl
    simp only [step_eq, hkind, hstored, hfinish, List.nil_append]
  have hopen : (c.opening n).openElements = c.document.size :: c.openElements := rfl
  constructor
  · intro hvoid
    refine .of_step _ hs ?_ (closeOne_quiet c.document.size (c.document.adopt c.current widened)
      (show Closing.error ⟨none, .void, none, widened.location, t.location.stop⟩ = none from rfl))
    rw [hstep]
    simp only [finishOpening_eq, hselfClosing, hdocument, hnode, hopen]
    simp [widened, hvoid, opening, hpending, closeOne]
  · intro hvoid
    refine .of_step [] hs ?_ (by simp)
    rw [hstep]
    simp only [finishOpening_eq, hselfClosing, hdocument, hnode, hopen]
    simp [widened, hvoid, opening, hpending]

/-- An end tag closes the current element if it has its name. -/
private theorem endTag_takesIn {id : NodeId} {ids : List NodeId} (hs : c.started = true)
    (hpending : c.pending = none) (hopen : c.openElements = id :: ids)
    (htag : (c.document.node id).tag = tag) (hts : ts.map Token.shape = Forest.endTagShapes tag) :
    ∃ stop, TakesIn v c ts { c with
      document := c.document.close id .explicit stop, openElements := ids } := by
  obtain ⟨first, later, rfl, hfirst, hlater⟩ := List.map_eq_cons_iff.mp hts
  obtain ⟨last, none, rfl, hlast, hnone⟩ := List.map_eq_cons_iff.mp hlater
  obtain rfl := List.map_eq_nil_iff.mp hnone
  obtain ⟨hkind, hend, hname⟩ := Token.of_endTag hfirst
  have hlastKind : last.kind = .tagClose := congrArg Prod.fst hlast
  have hbegun : TakesIn v c [first] { c with pending := some (.closing tag first.location) } := by
    refine .of_step [] hs ?_ (by simp)
    simp [step_eq, hkind, hend, hname]
  -- the innermost open element has the name, so nothing inside is closed first
  have hcalled : isCalled tag (c.document.node id) = true := by
    rw [isCalled, htag]
    exact Text.sameName_refl tag
  let whole := first.location.extendTo last.location
  refine ⟨whole.stop, hbegun.trans (.of_step _ hs ?_ (closeOne_quiet id c.document
    (show Closing.error ⟨none, .explicit, none, whole, whole.stop⟩ = none from rfl)))⟩
  simp only [step_eq, hlastKind, storeLast, finishTag_eq, closeTag_eq, hopen]
  simp [hcalled, closeAll, closeOne, hpending, whole]

/-- A run of text is a new last child. -/
private theorem text_takesIn {content : String} (hs : c.started = true)
    (ht : t.shape = (.text, content)) :
    ∃ n : Node, n.IsText content ∧
    TakesIn v c [t] { c with document := c.document.adopt c.current n } := by
  have hkind : t.kind = .text := congrArg Prod.fst ht
  have htext : t.text = content := congrArg Prod.snd ht
  refine ⟨.newText c.document.size t.text t.location (c.document.node c.current).foreign,
    ⟨?_, rfl⟩, ?_⟩
  · rw [htext]; rfl
  · refine .of_step [] hs ?_ (by simp)
    simp only [step_eq, hkind]
    rfl

/-- A start tag makes a new element, which stays open or is closed if it never has content. -/
private theorem startTag_takesIn {attributes : List (String × String)}
    (hc : c.Awaits v around inForeign) (hname : IsElementName tag)
    (hattributes : AreAttributes attributes)
    (hcloses : inForeign = false → around.any (·.isClosedBy tag) = false)
    (hts : ts.map Token.shape = Forest.startTagShapes tag attributes) :
    ∃ n : Node, n.IsElementOf tag attributes ∧ n.children = [] ∧
    n.foreign = v.isForeignIn inForeign tag ∧
      (v.isVoidIn inForeign tag = true → ∃ stop, TakesIn v c ts { c with
        document := (c.document.adopt c.current n).close c.document.size .void stop }) ∧
      (v.isVoidIn inForeign tag = false → TakesIn v c ts { c with
        document := c.document.adopt c.current n,
        openElements := c.document.size :: c.openElements }) := by
  have hp : c.current < c.document.size := hc.ready.sound.head_lt_size
  -- the tokens are the first of the tag, those of the attributes and the last
  obtain ⟨before, after, rfl, hbefore, hafter⟩ := List.map_eq_append_iff.mp hts
  obtain ⟨first, inner, rfl, hfirst, hinner⟩ := List.map_eq_cons_iff.mp hbefore
  obtain ⟨last, none, rfl, hlast, hnone⟩ := List.map_eq_cons_iff.mp hafter
  obtain rfl := List.map_eq_nil_iff.mp hnone
  obtain ⟨hkind, hnotEnd, hcalled⟩ := Token.of_startTag hname hfirst
  have hstep : c.step v first = c.openTag v first := by simp [step_eq, hkind, hnotEnd]
  -- no element around is ended by the tag, so opening it closes nothing
  rw [openTag_eq_opening (isEndedBy_eq_false hc hname hcalled hcloses),
    newElement_eq hc hname hcalled] at hstep
  let made := Node.newElement c.document.size tag first.location (v.isForeignIn inForeign tag)
    (v.isVoidIn inForeign tag)
  have hopened : TakesIn v c [first] (c.opening made) :=
    .of_step _ hc.started hstep (by simp [Event.kind])
  obtain ⟨stored, hpairs, hstored⟩ := attributes_takesIn (v := v) (n := made) hc.started hp hinner
    hattributes.distinct (by simp [made, Node.newElement, Node.fresh])
  obtain ⟨hvoid, hopen⟩ :=
    tagClose_takesIn (v := v) (n := { made with attributes := made.attributes ++ stored })
    hc.started hc.pending hp hlast
  refine ⟨{ made with
    attributes := stored, location := made.location.extendTo last.location, selfClosed := false },
    ⟨rfl, rfl, hpairs⟩, rfl, rfl, fun h => ⟨last.location.stop, ?_⟩, fun h => ?_⟩
  · exact (hopened.trans hstored).trans (hvoid h)
  · exact (hopened.trans hstored).trans (hopen h)

/-! ## A forest -/

namespace Awaits

/-- Taking in tokens keeps a construction ready. -/
private theorem ready_of_takesIn (hc : c.Awaits v around inForeign) (h : TakesIn v c ts c') :
    c'.Ready := by
  obtain ⟨-, hready, -⟩ := takeIn_run (v := v) hc.ready hc.started ts
  rwa [h.eq] at hready

/-- What comes after a node is awaited in the same way, if the current node has only got
children. -/
private theorem next {d : Document} (hc : c.Awaits v around inForeign)
    (h : TakesIn v c ts { c with document := d })
    (hcurrent : ∀ n, c.document.get? c.current = some n →
      ∃ children, d.get? c.current = some { n with children := children }) :
    Awaits v { c with document := d } around inForeign := by
  have hp : c.current < c.document.size := hc.ready.sound.head_lt_size
  obtain ⟨n, hn⟩ := Document.exists_get?_of_lt hp
  obtain ⟨children, hn'⟩ := hcurrent n hn
  have hforeign := hc.foreign
  rw [Document.node_of_get? hn] at hforeign
  refine ⟨hc.ready_of_takesIn h, hc.started, hc.pending, ?_, fun hout id hid => ?_⟩
  · show (d.node c.current).foreign = inForeign
    rw [Document.node_of_get? hn', hforeign]
  · -- the model of a node does not depend on its children
    have hmodel := hc.model hout id hid
    have hid' : c.current = id := by rw [current, List.headD_eq_head?_getD, hid]; rfl
    rw [← hid', Document.node_of_get? hn] at hmodel
    rw [← hid', Document.node_of_get? hn', ← hmodel]
    rfl

/-- The content of a new element is awaited in it. -/
private theorem content {n : Node} {attributes : List (String × String)}
    (hc : c.Awaits v around inForeign)
    (h : TakesIn v c ts { c with
      document := c.document.adopt c.current n, openElements := c.document.size :: c.openElements })
    (hn : n.IsElementOf tag attributes) (hforeign : n.foreign = v.isForeignIn inForeign tag) :
    Awaits v { c with
      document := c.document.adopt c.current n, openElements := c.document.size :: c.openElements }
      (v.find? tag) (v.isForeignIn inForeign tag) := by
  have hnode : (c.document.adopt c.current n).node c.document.size =
      { n with parent := some c.current } :=
    Document.node_of_get? (Document.get?_adopt_new hc.ready.sound.head_lt_size n)
  refine ⟨hc.ready_of_takesIn h, hc.started, hc.pending, ?_, fun hout id hid => ?_⟩
  · show ((c.document.adopt c.current n).node c.document.size).foreign = _
    rw [hnode, hforeign]
  · cases hid
    simp [hnode, Vocabulary.modelOf?, Node.isElement, hn.kind_eq, hn.tag_eq, hforeign, hout]

end Awaits

/-- The tokens of a forest give its nodes. -/
private theorem forest_takesIn {forest : Forest} (hspelled : forest.WellSpelled)
    (hfits : forest.Fits v around inForeign) (hc : c.Awaits v around inForeign)
    (hts : ts.map Token.shape = forest.shapes v inForeign) :
    ∃ d, TakesIn v c ts { c with document := d } ∧ c.document.Gains c.current forest d := by
  induction forest generalizing c ts around inForeign with
  | nil =>
    obtain rfl : ts = [] := List.map_eq_nil_iff.mp hts
    exact ⟨c.document, .refl v c, .nil _ _⟩
  | text content next ih =>
    obtain ⟨t, ts, rfl, ht, hts⟩ := List.map_eq_cons_iff.mp hts
    obtain ⟨n, hn, htext⟩ := text_takesIn (v := v) hc.started ht
    have hnext := hc.next htext fun m hm => ⟨_, Document.get?_adopt_parent hm n⟩
    obtain ⟨d, htakes, hgains⟩ := ih hspelled.2.2.2 hfits hnext hts
    exact ⟨d, htext.trans htakes, .text hc.ready.sound.head_lt_size hn hgains⟩
  | element tag attributes content next ihcontent ihnext =>
    have hp : c.current < c.document.size := hc.ready.sound.head_lt_size
    obtain ⟨hname, hattributes, hcontent, hnext⟩ := hspelled
    obtain ⟨hcloses, hempty, hcontentFits, hnextFits⟩ := hfits
    obtain ⟨before, later, rfl, hbefore, hlater⟩ := List.map_eq_append_iff.mp hts
    obtain ⟨before, last, rfl, hbefore, hlast⟩ := List.map_eq_append_iff.mp hbefore
    obtain ⟨first, inside, rfl, hfirst, hinside⟩ := List.map_eq_append_iff.mp hbefore
    obtain ⟨n, hn, hchildren, hforeign, hvoid, hopen⟩ :=
      startTag_takesIn hc hname hattributes hcloses hfirst
    cases hv : v.isVoidIn inForeign tag with
    | true =>
      -- there is no content, and the start tag closes the element
      obtain rfl := hempty hv
      obtain rfl : inside = [] := List.map_eq_nil_iff.mp hinside
      obtain rfl : last = [] := List.map_eq_nil_iff.mp (by rw [hlast, hv]; rfl)
      obtain ⟨stop, hstart⟩ := hvoid hv
      have hcurrent : ∀ m, c.document.get? c.current = some m → ∃ children,
          ((c.document.adopt c.current n).close c.document.size .void stop).get? c.current =
            some { m with children := children } := by
        intro m hm
        rw [Document.get?_close, if_neg (Nat.ne_of_gt hp), Document.get?_adopt_parent hm]
        exact ⟨_, rfl⟩
      obtain ⟨d, htakes, hgains⟩ := ihnext hnext hnextFits (hc.next hstart hcurrent) hlater
      refine ⟨d, ?_, .element hp hn hchildren (.nil _ _) hgains⟩
      rw [List.append_nil, List.append_nil]
      exact hstart.trans htakes
    | false =>
      have hstart := hopen hv
      obtain ⟨d₁, hinner, hgained⟩ :=
        ihcontent hcontent hcontentFits (hc.content hstart hn hforeign) hinside
      have hgained : (c.document.adopt c.current n).Gains c.document.size content d₁ := hgained
      -- the element is the current one again after its content
      have htag : (d₁.node c.document.size).tag = tag := by
        have hnode := hgained.parent_eq
        rw [Document.get?_adopt_new hp] at hnode
        rw [Document.node_of_get? hnode]
        exact hn.tag_eq
      obtain ⟨stop, hend⟩ := endTag_takesIn (v := v) (c := { c with
        document := d₁, openElements := c.document.size :: c.openElements }) hc.started
          hc.pending rfl htag
        (by rw [hlast, hv]; rfl)
      have hcurrent : ∀ m, c.document.get? c.current = some m → ∃ children,
          (d₁.close c.document.size .explicit stop).get? c.current =
            some { m with children := children } := by
        intro m hm
        have hlt : c.current < (c.document.adopt c.current n).size := by
          rw [Document.size_adopt]
          exact Nat.lt_succ_of_lt hp
        rw [Document.get?_close, if_neg (Nat.ne_of_gt hp),
          hgained.others_eq c.current hlt (Nat.ne_of_lt hp), Document.get?_adopt_parent hm]
        exact ⟨_, rfl⟩
      have helement := (hstart.trans hinner).trans hend
      obtain ⟨d, htakes, hgains⟩ := ihnext hnext hnextFits (hc.next helement hcurrent) hlater
      exact ⟨d, helement.trans htakes, .element hp hn hchildren hgained hgains⟩

/-- At the start a construction awaits whatever may stand in a document. -/
private theorem Awaits.ofLength (v : Vocabulary) (length : Nat) :
    Awaits v { Construction.ofLength length with started := true } none false where
  ready := ⟨Stage.Sound.ofLength length, by simp [Construction.ofLength]⟩
  started := rfl
  pending := rfl
  foreign := rfl
  model _ id hid := by cases hid

end Construction

/-! ## Parsing -/

/-- A document that has gained a forest under its root presents it. -/
private theorem Document.Gains.presents_ended {length : Nat} {forest : Forest} {d : Document}
    (h : (Document.ofLength length).Gains rootId forest d) : d.ended.Presents forest where
  size_eq := by
    rw [Document.ended, size_modify, h.size_eq]
    rfl
  children_eq := by
    have hroot := d.ended.get?_rootId
    rw [Document.ended, get?_modify_self, h.parent_eq, get?_rootId] at hroot
    rw [Document.ended, ← Option.some.inj hroot]
    rfl
  shows := by
    refine h.shows.congr fun j hj _ => ?_
    have hsize : (Document.ofLength length).size = 1 := rfl
    rw [Document.ended, get?_modify_of_ne (by simp only [rootId]; omega)]

/-- What the tokens of a forest give, once the document is ended. -/
private theorem Construction.record_forest {v : Vocabulary} {forest : Forest}
    (hspelled : forest.WellSpelled) (hfits : forest.Fits v none false) {ts : List Token}
    (hts : ts.map Token.shape = forest.shapes v false) (length : Nat) :
    (record v ts length).1.Presents forest ∧
      ∀ m ∈ (record v ts length).2, m.event.kind ≠ .parseError := by
  obtain ⟨d, htakes, hgains⟩ := forest_takesIn hspelled hfits (Awaits.ofLength v length) hts
  obtain ⟨hdocument, hmoments⟩ :=
    takeIn_finish_of_not_started (v := v) (c := ofLength length) rfl ts
  -- no element is open at the end
  have hfinish : ((takeIn v ts { ofLength length with started := true }).1).finish v =
      (d.ended, [⟨.domReady, d.ended⟩]) := by
    rw [htakes.eq]
    rfl
  rw [hfinish] at hdocument hmoments
  rw [record_eq]
  simp only [hdocument, hmoments]
  refine ⟨hgains.presents_ended, ?_⟩
  simp only [List.mem_cons, List.mem_append, List.not_mem_nil, or_false]
  rintro m (rfl | hm | rfl)
  · simp [Event.kind]
  · exact htakes.quiet m hm
  · simp [Event.kind]

/-- Parsing the printed form of a forest gives a document that presents this forest and no other,
and there is no complaint, if the forest is spelled well and its nodes can stand where they do. -/
theorem parse_print (v : Vocabulary) {forest : Forest} (hspelled : forest.WellSpelled)
    (hfits : forest.Fits v none false) :
    ∃ d events, parse v (String.ofList (forest.print v false)) = .ok (d, events) ∧
      (∀ other, d.Presents other ↔ other = forest) ∧ ∀ e ∈ events, e.kind ≠ .parseError := by
  obtain ⟨hfailure, htokens⟩ := Forest.tokenize_print hspelled hfits
  obtain ⟨hpresents, hquiet⟩ := Construction.record_forest hspelled hfits htokens
    (byteLength (String.ofList (forest.print v false)).toList)
  refine ⟨_, _, parse_eq hfailure v, fun other => ⟨fun hother => ?_, ?_⟩, ?_⟩
  · exact hother.unique hpresents
  · rintro rfl
    exact hpresents
  · intro e he
    obtain ⟨m, hm, rfl⟩ := List.mem_map.mp he
    exact hquiet m hm

/-- Line breaks, which have no content, and pictures, which are foreign. -/
def pictureVocabulary : Vocabulary :=
  ⟨.ofList [("br", ({ void := some true } : ElementDefinition).toModel "br"),
    ("svg", ({ foreign := some true } : ElementDefinition).toModel "svg")]⟩

/-- A line break beside a picture, and an element of the same name with content inside the
picture. -/
def pictureForest : Forest :=
  .element "div" [("id", "a<b"), ("Title", "")]
    (.text "x > y" (.element "br" [] .nil
      (.element "svg" [] (.element "br" [] (.text "z" .nil) .nil) .nil)))
    (.text "end" .nil)

/-- A forest with a void element, and with one of the same name that is none in foreign content. -/
theorem parse_print_picture :
    String.ofList (pictureForest.print pictureVocabulary false) =
      "<div id=\"a<b\" Title=\"\">x > y<br><svg><br>z</br></svg></div>end" ∧
    ∃ d events, parse pictureVocabulary
      (String.ofList (pictureForest.print pictureVocabulary false)) =
        .ok (d, events) ∧
      (∀ other, d.Presents other ↔ other = pictureForest) ∧ ∀ e ∈ events, e.kind ≠ .parseError :=
  ⟨rfl, parse_print pictureVocabulary (by decide +kernel) (by decide +kernel)⟩

/-- Paragraphs that end where another one begins, said with a capital. -/
def paragraphVocabulary : Vocabulary :=
  ⟨.ofList [("p", ({ implicitClosed := some ["P"] } : ElementDefinition).toModel "p")]⟩

/-- A paragraph in a paragraph. -/
def nestedParagraphs : Forest :=
  .element "p" [] (.element "p" [] .nil .nil) .nil

/-- Which elements end another one is asked up to case: the name of the inner paragraph is not among
those that end the outer one, and still the two come to stand side by side, with an end tag too
many. -/
theorem nestedParagraphs_not_presented :
    nestedParagraphs.WellSpelled ∧
    ((paragraphVocabulary.find? "p").map fun m => (m.void, decide ("p" ∈ m.implicitClosed))) =
      some (false, false) ∧
    ∃ d events, parse paragraphVocabulary
      (String.ofList (nestedParagraphs.print paragraphVocabulary false)) =
        .ok (d, events) ∧
      ¬ d.Presents nestedParagraphs ∧ ∃ e ∈ events, e.kind = .parseError := by
  refine ⟨by decide +kernel, by decide +kernel, ?_⟩
  have hparsed : ((parse paragraphVocabulary
      (String.ofList (nestedParagraphs.print paragraphVocabulary false))).toOption.map fun r =>
        (r.1.root.children, r.2.any fun e => e.kind == .parseError)) = some ([1, 2], true) := by
    decide +kernel
  cases hresult : parse paragraphVocabulary
      (String.ofList (nestedParagraphs.print paragraphVocabulary false)) with
  | error e => rw [hresult] at hparsed; cases hparsed
  | ok result =>
    rw [hresult] at hparsed
    simp only [Except.toOption, Option.map_some, Option.some.injEq, Prod.mk.injEq] at hparsed
    refine ⟨result.1, result.2, rfl, fun hpresents => ?_, by simpa using hparsed.2⟩
    -- the root has two children here, and one in the forest
    have hchildren := hpresents.children_eq
    rw [hparsed.1] at hchildren
    cases hchildren

end HtmlLint
