import HtmlLint.Proofs.Construction.Foreign
import HtmlLint.Proofs.Element.Customization
import HtmlLint.Proofs.Text

/-!
# The case of tag names

Tag names ignore the case of ASCII letters.  Every part of a construction has a form in small
letters, its `folded` form, and every function of the construction commutes with taking it, if the
tags of the vocabulary are in small letters (`Vocabulary.IsSmall`): `step_folded` says so of one
token and `record_folded` of a whole document.  Hence two sequences of tokens that differ only in
the case of tag names give the same document and the same events, up to the names of elements in
foreign content and the names in error messages (`record_of_folded_eq`).
-/

namespace HtmlLint

/-! ## Vocabularies in small letters -/

/-- The known tags are written in small letters. -/
def Vocabulary.IsSmall (v : Vocabulary) : Prop :=
  ∀ tag ∈ v.tags, Text.foldCase tag = tag

instance (v : Vocabulary) : Decidable v.IsSmall :=
  inferInstanceAs (Decidable (∀ tag ∈ v.tags, Text.foldCase tag = tag))

/-- The case of a tag does not matter. -/
theorem Vocabulary.IsSmall.find?_foldCase {v : Vocabulary} (h : v.IsSmall) (tag : String) :
    v.find? (Text.foldCase tag) = v.find? tag := by
  simp only [find?, Text.foldCase_foldCase, Option.or_self]
  cases hget : v.models.get? tag with
  | none => rfl
  | some m =>
    have hmem : tag ∈ v.tags := by
      obtain ⟨p, hp, hkey⟩ : ∃ p ∈ v.models.entries, p.1 = tag := by
        have hlookup : v.models.entries.lookup tag = some m := hget
        obtain ⟨before, after, hentries, -⟩ := List.lookup_eq_some_iff.mp hlookup
        exact ⟨(tag, m), by simp [hentries], rfl⟩
      exact List.mem_map.mpr ⟨p, hp, hkey⟩
    rw [h tag hmem, hget]
    rfl

namespace Definitions

/-- Definitions are put under tags in small letters. -/
private theorem foldCase_of_mem_keys_customize {defs : Definitions}
    (h : ∀ tag ∈ defs.keys, Text.foldCase tag = tag) (name : String) (d : ElementDefinition) :
    ∀ tag ∈ (defs.customize name d).keys, Text.foldCase tag = tag := by
  -- one definition at its place in the list
  have hinsert : ∀ (d : ElementDefinition) (entries : List (String × ElementDefinition)),
      (∀ e ∈ entries, Text.foldCase e.1 = e.1) →
        ∀ e ∈ NameMap.insertEntry (Text.foldCase name) d entries, Text.foldCase e.1 = e.1 := by
    intro d entries
    induction entries with
    | nil => simp [NameMap.insertEntry]
    | cons e entries ih =>
      intro hall
      rw [List.forall_mem_cons] at hall
      simp only [NameMap.insertEntry]
      split
      · simp only [List.forall_mem_cons, Text.foldCase_foldCase]
        exact ⟨trivial, hall.2⟩
      · split
        · simp only [List.forall_mem_cons, Text.foldCase_foldCase]
          exact ⟨trivial, hall⟩
        · rw [List.forall_mem_cons]
          exact ⟨hall.1, ih hall.2⟩
  have hentries : ∀ e ∈ defs.entries, Text.foldCase e.1 = e.1 :=
    fun e he => h e.1 (List.mem_map_of_mem he)
  intro tag htag
  obtain ⟨e, he, rfl⟩ := List.mem_map.mp htag
  simp only [customize] at he
  split at he <;> exact hinsert _ _ hentries e he

end Definitions

/-- Whatever is put over the elements of HTML, the tags are in small letters. -/
private theorem Vocabulary.isSmall_of_htmlWith {custom : Definitions} {v : Vocabulary}
    (h : htmlWith custom = .ok v) :
    v.IsSmall := by
  have hfold : ∀ (entries : List (String × ElementDefinition)) (defs : Definitions),
      (∀ tag ∈ defs.keys, Text.foldCase tag = tag) →
        ∀ tag ∈ (entries.foldl (fun defs e => defs.customize e.1 e.2) defs).keys,
        Text.foldCase tag = tag := by
    intro entries
    induction entries with
    | nil => intro defs hdefs; exact hdefs
    | cons e entries ih =>
      intro defs hdefs
      exact ih _ (Definitions.foldCase_of_mem_keys_customize hdefs e.1 e.2)
  intro tag htag
  exact hfold _ _ (by decide +kernel) tag ((mem_tags_iff h).mp htag)

/-! ## Folded forms -/

/-- The token with the name of its tag in small letters. -/
def Token.folded (t : Token) : Token :=
  if t.kind = .tagOpen then { t with text := Text.foldCase t.text } else t

/-- The node with its tag in small letters. -/
def Node.folded (n : Node) : Node :=
  { n with tag := Text.foldCase n.tag }

/-- The document with all tags in small letters. -/
def Document.folded (d : Document) : Document where
  nodes := d.nodes.map Node.folded
  sourceLength := d.sourceLength
  rooted := by simpa using d.rooted

/-- The error with its names in small letters. -/
def StructuralError.folded : StructuralError → StructuralError
  | strayEndTag tag => strayEndTag (Text.foldCase tag)
  | mismatchedClose expected found => mismatchedClose (Text.foldCase expected) (Text.foldCase found)
  | unclosedElement tag => unclosedElement (Text.foldCase tag)

/-- The event with the names in small letters, if it is an error. -/
def Event.folded : Event → Event
  | parseError error target location => parseError error.folded target location
  | e => e

/-- The moment with an event and a document in small letters. -/
def Moment.folded (m : Moment) : Moment :=
  ⟨m.event.folded, m.document.folded⟩

/-- The tag with its name in small letters. -/
def PendingTag.folded : PendingTag → PendingTag
  | opening node last => opening node last
  | closing name location => closing (Text.foldCase name) location

/-- The construction with all names in small letters. -/
def Construction.folded (c : Construction) : Construction :=
  { c with document := c.document.folded, pending := c.pending.map PendingTag.folded }

/-- What a construction and some moments are in small letters. -/
def Construction.foldedPair (r : Construction × List Moment) : Construction × List Moment :=
  (r.1.folded, r.2.map Moment.folded)

/-! ### Tokens -/

namespace Token

/-- Only the beginnings of tags change their letters. -/
private theorem folded_of_ne {t : Token} (h : t.kind ≠ .tagOpen) : t.folded = t :=
  if_neg h

@[simp] theorem kind_folded (t : Token) : t.folded.kind = t.kind := by
  unfold folded
  split <;> rfl

@[simp] theorem location_folded (t : Token) : t.folded.location = t.location := by
  unfold folded
  split <;> rfl

/-- The name of a tag in small letters is the name of the tag that was put into small letters. -/
private theorem tagName_folded {t : Token} (h : t.kind = .tagOpen) :
    t.folded.tagName = Text.foldCase t.tagName := by
  -- no letter folds to one of the two characters that a name begins after
  have hlt : ∀ c : Char, c ≠ '<' → c.toLower ≠ '<' :=
    fun c => mt (Text.toLower_eq_iff (by decide)).mp
  have hslash : ∀ c : Char, c ≠ '/' → c.toLower ≠ '/' :=
    fun c => mt (Text.toLower_eq_iff (by decide)).mp
  have hof : ∀ cs : List Char, String.ofList (Text.foldChars cs) =
      Text.foldCase (String.ofList cs) := by
    intro cs
    rw [Text.foldCase, String.toList_ofList]
  simp only [folded, if_pos h, tagName, Text.toList_foldCase]
  cases t.text.toList with
  | nil => rfl
  | cons c cs =>
    by_cases hc : c = '<'
    · subst hc
      cases cs with
      | nil => rfl
      | cons e es =>
        by_cases he : e = '/'
        · subst he
          exact hof es
        · -- the name begins after the first character on both sides
          have hsmall := hslash e he
          simpa [-String.ofList_cons, Text.foldChars, he, hsmall, show '<'.toLower = '<' from rfl]
            using hof (e :: es)
    · have hsmall := hlt c hc
      simpa [-String.ofList_cons, Text.foldChars, hc, hsmall] using hof (c :: cs)

/-- Whether a tag is an end tag does not depend on the letters of its name. -/
private theorem isEndTag_folded (t : Token) : t.folded.isEndTag = t.isEndTag := by
  have hlt : ∀ c : Char, ('<' == c.toLower) = ('<' == c) := fun c => by
    rw [Bool.eq_iff_iff, beq_iff_eq, beq_iff_eq, eq_comm, Text.toLower_eq_iff (by decide), eq_comm]
  have hslash : ∀ c : Char, ('/' == c.toLower) = ('/' == c) := fun c => by
    rw [Bool.eq_iff_iff, beq_iff_eq, beq_iff_eq, eq_comm, Text.toLower_eq_iff (by decide), eq_comm]
  by_cases h : t.kind = .tagOpen
  · simp only [folded, if_pos h, isEndTag, Text.startsWith, Text.toList_foldCase]
    congr 1
    cases t.text.toList with
    | nil => rfl
    | cons c cs =>
      cases cs with
      | nil => simp [Text.foldChars, List.isPrefixOf]
      | cons e es => simp [Text.foldChars, List.isPrefixOf, hlt, hslash]
  · rw [folded_of_ne h]

end Token

/-! ### Nodes and documents -/

@[simp] theorem Node.foreign_folded (n : Node) : n.folded.foreign = n.foreign := rfl

namespace Document

@[simp] theorem size_folded (d : Document) : d.folded.size = d.size := by
  simp [size, folded]

/-- A node of the folded document is the folded node. -/
@[simp] theorem get?_folded (d : Document) (i : Nat) :
    d.folded.get? i = (d.get? i).map Node.folded := by
  simp [get?, folded]

@[simp] theorem node_folded (d : Document) (i : Nat) : d.folded.node i = (d.node i).folded := by
  cases hn : d.get? i with
  | some n => rw [node_of_get? hn, node_of_get? (by rw [get?_folded, hn]; rfl)]
  | none =>
    have hroot : d.folded.get? rootId = some d.root.folded := by rw [get?_folded, get?_rootId]; rfl
    rw [get?_rootId] at hroot
    rw [node, node, hn, get?_folded, hn]
    exact Option.some.inj hroot

/-- Folding commutes with adding a node. -/
private theorem folded_push (d : Document) (n : Node) :
    (d.push n).folded = d.folded.push n.folded := by
  simp [push, folded]

/-- A change that commutes with folding a node commutes with folding the document. -/
private theorem folded_modify (d : Document) (i : Nat) {f g : Node → Node}
    (h : ∀ n : Node, (f n).folded = g n.folded) :
    (d.modify i f).folded = d.folded.modify i g := by
  apply eq_of_get?_eq
  · rfl
  · intro j
    rw [get?_folded, get?_modify, get?_modify, get?_folded]
    by_cases hj : i = j
    · rw [if_pos hj, if_pos hj, Option.map_map, Option.map_map]
      congr 1
      funext n
      exact h n
    · rw [if_neg hj, if_neg hj]

/-- Folding commutes with putting a node in its place. -/
private theorem folded_appendChild (d : Document) (p c : Nat) :
    (d.appendChild p c).folded = d.folded.appendChild p c := by
  have hchild : (d.modify c fun n => { n with parent := some p }).folded =
      d.folded.modify c fun n => { n with parent := some p } := folded_modify d c (by intro n; rfl)
  unfold appendChild
  rw [← hchild]
  exact folded_modify _ p (by intro n; rfl)

/-- Folding commutes with closing a node. -/
private theorem folded_close (d : Document) (i : Nat) (kind : CloseKind) (stop : Nat) :
    (d.close i kind stop).folded = d.folded.close i kind stop :=
  folded_modify d i (by intro n; rfl)

/-- Folding commutes with storing an attribute. -/
private theorem folded_setAttribute (d : Document) (i : Nat) (a : Attribute) :
    (d.setAttribute i a).folded = d.folded.setAttribute i a :=
  folded_modify d i (by intro n; rfl)

end Document

section Model

variable {v : Vocabulary}

/-- What is known about a node does not depend on the letters of its tag. -/
private theorem Vocabulary.IsSmall.modelOf?_folded (h : v.IsSmall) (n : Node) :
    v.modelOf? n.folded = v.modelOf? n := by
  show (if n.isElement then (v.find? (Text.foldCase n.tag)).bind _ else none) = _
  rw [h.find?_foldCase]
  rfl

/-- Whether the end tag of a node may be left out does not depend on the letters. -/
private theorem hasOptionalEnd_folded (h : v.IsSmall) (n : Node) :
    Construction.hasOptionalEnd v n.folded = Construction.hasOptionalEnd v n := by
  rw [Construction.hasOptionalEnd, h.modelOf?_folded]
  rfl

/-- Whether a start tag ends a node does not depend on the letters of the node. -/
private theorem endsBefore_folded (h : v.IsSmall) (tag : String) (n : Node) :
    Construction.endsBefore v tag n.folded = Construction.endsBefore v tag n := by
  rw [Construction.endsBefore, h.modelOf?_folded]
  rfl

/-- A node has a name in small letters exactly if it had the name in the letters of the source. -/
private theorem isCalled_folded (name : String) (n : Node) :
    Construction.isCalled (Text.foldCase name) n.folded = Construction.isCalled name n := by
  simp [Construction.isCalled, Node.folded]

end Model

/-! ## Closing elements -/

/-- How an element is closed, with the names of an error in small letters. -/
def Closing.folded (how : Closing) : Closing :=
  { how with error := how.error.map StructuralError.folded }

namespace Construction

variable {v : Vocabulary}

/-- Closing an element in the folded document shows what closing it shows, in small letters. -/
private theorem closeOne_folded (id : NodeId) (how : Closing) (d : Document) :
    closeOne id how.folded d.folded =
      ((closeOne id how d).1.folded, (closeOne id how d).2.map Moment.folded) := by
  obtain ⟨error, kind, previous, location, stop⟩ := how
  have hclose := d.folded_close id kind stop
  cases error <;> simp [closeOne, Closing.folded, hclose, Moment.folded, Event.folded]

/-- So does closing several of them, if each is closed in the same way as before. -/
private theorem closeAll_folded {how how' : Node → Closing}
    (h : ∀ n : Node, how' n.folded = (how n).folded) (ids : List NodeId) (d : Document) :
    closeAll how' ids d.folded =
      ((closeAll how ids d).1.folded, (closeAll how ids d).2.map Moment.folded) := by
  induction ids generalizing d with
  | nil => rfl
  | cons id ids ih =>
    simp only [closeAll, Document.node_folded, h, closeOne_folded, ih, List.map_append]

/-! ## One token -/

@[simp] theorem current_folded (c : Construction) : c.folded.current = c.current := rfl

@[simp] theorem openElements_folded (c : Construction) :
    c.folded.openElements = c.openElements := rfl

@[simp] theorem document_folded (c : Construction) : c.folded.document = c.document.folded := rfl

/-- The element that a folded start tag makes is the folded element. -/
private theorem newElement_folded (h : v.IsSmall) {t : Token} (ht : t.kind = .tagOpen)
    (c : Construction) :
    newElement v t.folded c.folded = (newElement v t c).folded := by
  simp only [newElement, current_folded, document_folded, Document.node_folded, Node.foreign_folded,
    Document.size_folded, Token.location_folded, Token.tagName_folded ht, h.find?_foldCase]
  cases (c.document.node c.current).foreign <;> simp [Node.newElement, Node.folded, Node.fresh]

/-- In foreign content nothing is ended, and elsewhere the new tag is in small letters anyhow. -/
private theorem isEndedBy_folded (h : v.IsSmall) {t : Token} (ht : t.kind = .tagOpen)
    (c : Construction) :
    isEndedBy v t.folded c.folded = isEndedBy v t c := by
  funext id
  simp only [isEndedBy, current_folded, document_folded,
    newElement_folded h ht, ← Document.folded_push,
    Document.node_folded, Node.foreign_folded, endsBefore_folded h]
  cases hf : (c.document.node c.current).foreign with
  | true => simp
  | false =>
    have htag : (newElement v t c).folded.tag = (newElement v t c).tag := by
      simp [newElement, Node.newElement, Node.folded, Node.fresh, hf]
    rw [htag]

/-- Opening an element commutes with folding. -/
private theorem openTag_folded (h : v.IsSmall) {t : Token} (ht : t.kind = .tagOpen)
    (c : Construction) :
    c.folded.openTag v t.folded = foldedPair (c.openTag v t) := by
  have hclosing : ∀ n : Node, closingBefore t.folded c.document.size n.folded =
      (closingBefore t c.document.size n).folded := by
    intro n
    simp [closingBefore, Closing.folded]
  rw [openTag_eq, openTag_eq]
  simp only [isEndedBy_folded h ht, newElement_folded h ht, document_folded, openElements_folded,
    Document.size_folded,
    ← Document.folded_push, Token.location_folded, closeAll_folded hclosing, foldedPair]
  simp [folded, PendingTag.folded, Document.folded_appendChild, Moment.folded, Event.folded]

/-- Storing an attribute commutes with folding: attributes keep their letters. -/
private theorem storeLast_folded (value : Option Token) (c : Construction) :
    c.folded.storeLast value = foldedPair (c.storeLast value) := by
  obtain ⟨d, ids, pending, started⟩ := c
  cases pending with
  | none => rfl
  | some tag =>
    cases tag with
    | closing name location => rfl
    | opening node last =>
      cases last with
      | none => rfl
      | some last =>
        simp [storeLast, folded, foldedPair, PendingTag.folded, Document.folded_setAttribute,
          Moment.folded, Event.folded]

/-- Remembering an attribute commutes with folding. -/
private theorem expectValue_folded (t : Token) (c : Construction) :
    c.folded.expectValue t = (c.expectValue t).folded := by
  obtain ⟨d, ids, pending, started⟩ := c
  cases pending with
  | none => rfl
  | some tag => cases tag <;> rfl

/-- The error about an end tag names the current element and the tag. -/
private theorem mismatch_folded (h : v.IsSmall) (name : String) (c : Construction) :
    c.folded.mismatch v (Text.foldCase name) =
      ((c.mismatch v name).1.folded, (c.mismatch v name).2) := by
  simp only [mismatch, openElements_folded, h.find?_foldCase]
  cases c.openElements with
  | nil => rfl
  | cons top ids =>
    simp only [document_folded, Document.node_folded]
    cases (v.find? name).any (·.void) <;> rfl

/-- An end tag closes the same elements when its name and theirs are in small letters. -/
private theorem closeTag_folded (h : v.IsSmall) (name : String) (location : Location)
    (c : Construction) :
    c.folded.closeTag v (Text.foldCase name) location =
      foldedPair (c.closeTag v name location) := by
  -- names are compared without their case, so the same element is found
  have hother : (fun id => !isCalled (Text.foldCase name) (c.folded.document.node id)) =
      fun id => !isCalled name (c.document.node id) := by
    funext id
    rw [document_folded, Document.node_folded, isCalled_folded]
  cases hfound : c.openElements.dropWhile fun id => !isCalled name (c.document.node id) with
  | nil =>
    simp only [closeTag_eq, hother, openElements_folded, hfound, mismatch_folded h]
    rfl
  | cons found left =>
    have hfound' : c.folded.openElements.dropWhile
        (fun id => !isCalled (Text.foldCase name) (c.folded.document.node id)) = found :: left := by
      rw [hother]
      exact hfound
    -- the errors name the tags, and so they fold with them
    have hinside : ∀ n : Node, closingInside v (Text.foldCase name) location n.folded =
        (closingInside v name location n).folded := by
      intro n
      simp only [closingInside, closingWithoutEnd, hasOptionalEnd_folded h]
      cases hasOptionalEnd v n <;> rfl
    have houter := fun d => closeOne_folded found ⟨none, .explicit, none, location, location.stop⟩ d
    simp only [Closing.folded, Option.map_none] at houter
    have hinner := closeAll_folded hinside
      (c.openElements.takeWhile fun id => !isCalled name (c.document.node id)) c.document
    rw [closeTag_of_found hfound, closeTag_of_found hfound', hother]
    simp only [document_folded, openElements_folded, hinner, houter, foldedPair, List.map_append]
    rfl

/-- The end of a start tag does the same whatever the letters. -/
private theorem finishOpening_folded (node : NodeId) (t : Token) (c : Construction) :
    c.folded.finishOpening node t = foldedPair (c.finishOpening node t) := by
  have hwiden : (c.document.modify node fun n =>
      { n with location := n.location.extendTo t.location, selfClosed := t.isSelfClosing }).folded =
        c.folded.document.modify node fun n =>
          { n with location := n.location.extendTo t.location, selfClosed := t.isSelfClosing } :=
    Document.folded_modify c.document node (by intro n; rfl)
  simp only [finishOpening_eq, ← hwiden, openElements_folded, Document.node_folded]
  generalize c.document.modify node (fun n =>
    { n with location := n.location.extendTo t.location, selfClosed := t.isSelfClosing }) = d
  cases c.openElements with
  | nil => rfl
  | cons top left =>
    -- neither what is void nor where the tag is has a case
    have hvoid : (d.node node).folded.void = (d.node node).void := rfl
    have hlocation : (d.node node).folded.location = (d.node node).location := rfl
    simp only [hvoid, hlocation]
    split
    · have hclose := closeOne_folded top
        ⟨none, if (d.node node).void then CloseKind.void else .selfClosed, none,
          (d.node node).location, t.location.stop⟩ d
      simp only [Closing.folded, Option.map_none] at hclose
      rw [hclose]
      rfl
    · rfl

/-- So does the end of a tag. -/
private theorem finishTag_folded (h : v.IsSmall) (t : Token) (c : Construction) :
    c.folded.finishTag v t = foldedPair (c.finishTag v t) := by
  have hpending : c.folded.pending = c.pending.map PendingTag.folded := rfl
  simp only [finishTag_eq, hpending]
  cases c.pending with
  | none => rfl
  | some tag =>
    cases tag with
    | opening node last => exact finishOpening_folded node t c
    | closing name location => exact closeTag_folded h name _ { c with pending := none }

/-- Text is added as it is. -/
private theorem addText_folded (t : Token) (c : Construction) :
    c.folded.addText t = (c.addText t).folded := by
  simp only [addText, current_folded, document_folded, Document.node_folded, Node.foreign_folded,
    Document.size_folded]
  simp only [folded, Document.folded_appendChild, Document.folded_push]
  rfl

/-- What a comment says is no error. -/
private theorem event_folded_of_event? {t : Token} {parent : NodeId} {e : Event}
    (h : Directive.event? t parent = some e) : e.folded = e := by
  have hkind := Directive.kind_of_event? h
  cases e with
  | parseError => simp [Event.kind] at hkind
  | _ => rfl

/-- Taking in a token in small letters gives what taking in the token gives, in small letters. -/
theorem step_folded (h : v.IsSmall) (t : Token) (c : Construction) :
    c.folded.step v t.folded = foldedPair (c.step v t) := by
  by_cases hopen : t.kind = .tagOpen
  · -- the two sorts of tags take their name from the token
    simp only [step_eq, Token.kind_folded, hopen, Token.isEndTag_folded]
    split
    · simp only [Token.tagName_folded hopen, Token.location_folded]
      rfl
    · exact openTag_folded h hopen c
  · -- every other token is the same
    rw [Token.folded_of_ne hopen]
    rw [step_eq, step_eq]
    cases hkind : t.kind with
    | tagOpen => exact absurd hkind hopen
    | attrName =>
      simp only [storeLast_folded]
      simp only [foldedPair, expectValue_folded]
    | attrValue => exact storeLast_folded (some t) c
    | tagClose =>
      simp only [storeLast_folded]
      simp only [foldedPair, finishTag_folded h, List.map_append]
    | text =>
      simp only [addText_folded]
      rfl
    | comment =>
      simp only [current_folded]
      cases hevent : Directive.event? t c.current with
      | none => rfl
      | some e =>
        simp only [Option.toList_some, List.map_cons, List.map_nil, foldedPair, Moment.folded,
          event_folded_of_event? hevent]
        rfl
    | doctype => rfl

/-! ## All tokens -/

/-- The first event comes at the same time. -/
private theorem start_folded (c : Construction) : c.folded.start = foldedPair c.start := by
  obtain ⟨d, ids, pending, started⟩ := c
  cases started <;> rfl

/-- One token: what the folded token does to the folded construction is what the token did, folded.
-/
private theorem push_folded (h : v.IsSmall) (t : Token) (c : Construction) :
    c.folded.push v t.folded = foldedPair (c.push v t) := by
  simp only [push_eq, start_folded]
  simp only [foldedPair, step_folded h, List.map_append]

/-- All tokens, by induction from the first one on. -/
private theorem takeIn_folded (h : v.IsSmall) (ts : List Token) (c : Construction) :
    takeIn v (ts.map Token.folded) c.folded = foldedPair (takeIn v ts c) := by
  induction ts generalizing c with
  | nil => rfl
  | cons t ts ih =>
    simp only [List.map_cons, takeIn, push_folded h]
    simp only [foldedPair, ih, List.map_append]

/-- The end of the source closes the same elements. -/
private theorem finish_folded (h : v.IsSmall) (c : Construction) :
    c.folded.finish v = ((c.finish v).1.folded, (c.finish v).2.map Moment.folded) := by
  have hatEnd : ∀ (stop : Nat) (n : Node), closingAtEnd v stop n.folded =
      (closingAtEnd v stop n).folded := by
    intro stop n
    simp only [closingAtEnd, closingWithoutEnd, hasOptionalEnd_folded h]
    cases hasOptionalEnd v n <;> rfl
  have hended : ∀ (d : Document) (stop : Nat), d.folded.modify rootId
      (fun n => { n with endOffset := some stop }) =
      (d.modify rootId fun n => { n with endOffset := some stop }).folded := by
    intro d stop
    exact (Document.folded_modify d rootId (by intro n; rfl)).symm
  rw [finish_eq, finish_eq, start_folded]
  generalize c.start = first
  obtain ⟨⟨d, ids, pending, started⟩, ms⟩ := first
  have hlength : d.folded.sourceLength = d.sourceLength := rfl
  simp only [foldedPair, folded, hlength, closeAll_folded (hatEnd _), hended, List.map_append]
  rfl

/-- The document and the moments of tokens in small letters are those of the tokens, in small
letters. -/
theorem record_folded (h : v.IsSmall) (ts : List Token) (length : Nat) :
    record v (ts.map Token.folded) length =
      ((record v ts length).1.folded, (record v ts length).2.map Moment.folded) := by
  have hstart : (ofLength length).folded = ofLength length := by
    simp [ofLength, folded, Document.folded, Document.ofLength, Node.folded, Node.fresh,
      Text.foldCase, Text.foldChars]
  have htaken := takeIn_folded h ts (ofLength length)
  rw [hstart] at htaken
  rw [record_eq, record_eq, htaken]
  simp only [foldedPair, finish_folded h, List.map_append]

end Construction

/-! ## Two spellings -/

/-- In foreign content a tag stays as it is written; everywhere else it is in small letters. -/
private theorem Document.IsMadeWith.folded_eq {v : Vocabulary} {d : Document} (h : d.IsMadeWith v)
    (htree : d.IsTree) {i : Nat} {n : Node} (hn : d.get? i = some n)
    (hparent : ∀ parent, d.parent? i = some parent → parent.foreign = false) :
    n.folded = n := by
  suffices htag : Text.foldCase n.tag = n.tag by
    unfold Node.folded
    rw [htag]
  by_cases hother : n.kind ≠ .element ∨ n.parent = none
  · rw [h.untagged i n hn hother]
    rfl
  · rw [not_or, Decidable.not_not] at hother
    obtain ⟨hkind, hsome⟩ := hother
    obtain ⟨p, hp⟩ := Option.ne_none_iff_exists'.mp hsome
    have hlt : p < d.size := Nat.lt_trans (htree.parent_lt hn hp) (lt_size_of_get? hn)
    obtain ⟨m, hm⟩ := exists_get?_of_lt hlt
    have hplain := hparent m (by simp [parent?, hn, hp, hm])
    obtain ⟨written, htag, -⟩ := h.made i p n m hn hkind hp hm
    rw [htag, hplain]
    exact Text.foldCase_foldCase written

/-- Two sequences of tokens that differ only in the case of tag names give documents that differ
only in the case of tags in foreign content.  The moments of building them differ only in that and
in the case of the names in errors. -/
theorem record_of_folded_eq {v : Vocabulary} (hv : v.IsSmall) {ts us : List Token}
    (h : ts.map Token.folded = us.map Token.folded) (length : Nat) :
    let made := Construction.record v ts length
    let other := Construction.record v us length
    made.1.folded = other.1.folded ∧
    (∀ i n, made.1.get? i = some n →
      (∀ parent, made.1.parent? i = some parent → parent.foreign = false) →
      other.1.get? i = some n) ∧
    made.2.map Moment.folded = other.2.map Moment.folded := by
  intro made other
  have hsame : (made.1.folded, made.2.map Moment.folded) =
      (other.1.folded, other.2.map Moment.folded) := by
    rw [← Construction.record_folded hv, ← Construction.record_folded hv, h]
  have hdoc : made.1.folded = other.1.folded := congrArg Prod.fst hsame
  refine ⟨hdoc, ?_, congrArg Prod.snd hsame⟩
  intro i n hn hparent
  have hget : ∀ j : Nat, (made.1.get? j).map Node.folded = (other.1.get? j).map Node.folded := by
    intro j
    rw [← Document.get?_folded, ← Document.get?_folded, hdoc]
  obtain ⟨m, hm, hlike⟩ : ∃ m, other.1.get? i = some m ∧ m.folded = n.folded := by
    have hi := hget i
    rw [hn] at hi
    exact Option.map_eq_some_iff.mp hi.symm
  -- the parents agree on being foreign
  have hparent' : ∀ parent, other.1.parent? i = some parent → parent.foreign = false := by
    intro parent hp
    obtain ⟨p, hp, hpm⟩ : ∃ p, m.parent = some p ∧ other.1.get? p = some parent := by
      simpa [Document.parent?, hm, Option.bind_eq_some_iff] using hp
    have hparents : n.folded.parent = m.folded.parent := by rw [hlike]
    change n.parent = m.parent at hparents
    have hpi := hget p
    rw [hpm] at hpi
    obtain ⟨q, hq, hqlike⟩ := Option.map_eq_some_iff.mp hpi
    have hforeign := hparent q (by simp [Document.parent?, hn, hparents, hp, hq])
    rw [← hforeign]
    show parent.folded.foreign = q.folded.foreign
    rw [hqlike]
  have hn' := (Construction.record_isMadeWith v ts length).folded_eq
    (Construction.record_isTree v ts length) hn hparent
  have hm' := (Construction.record_isMadeWith v us length).folded_eq
    (Construction.record_isTree v us length) hm hparent'
  rw [hm, ← hm', hlike, hn']

/-- A link in a picture, spelled in two ways: the tags of the two links differ, and nothing else
does. -/
theorem record_of_folded_eq_picture :
    let ts := (tokenize "<SVG><A></a></svg>").tokens
    let us := (tokenize "<svg><a></A></SVG>").tokens
    ∃ v, Vocabulary.htmlWith .empty = .ok v ∧ v.IsSmall ∧
    ts.map Token.folded = us.map Token.folded ∧
      [ts, us].map (fun l => (Construction.record v l 18).1.nodes.toList.map Node.tag) =
        [["", "svg", "A"], ["", "svg", "a"]] ∧
      (let made := Construction.record v ts 18
      let other := Construction.record v us 18
      made.1.folded = other.1.folded ∧
      (∀ i n, made.1.get? i = some n →
        (∀ parent, made.1.parent? i = some parent → parent.foreign = false) →
        other.1.get? i = some n) ∧
      made.2.map Moment.folded = other.2.map Moment.folded) := by
  intro ts us
  have hspelling : ts.map Token.folded = us.map Token.folded := by decide +kernel
  have htags : ((Vocabulary.htmlWith .empty).toOption.map fun v =>
      [ts, us].map fun l => (Construction.record v l 18).1.nodes.toList.map Node.tag) =
        some [["", "svg", "A"], ["", "svg", "a"]] := by
    rw [Vocabulary.htmlWith_empty]
    decide +kernel
  cases hv : Vocabulary.htmlWith .empty with
  | error e => rw [hv] at htags; cases htags
  | ok v =>
    rw [hv] at htags
    have hsmall := Vocabulary.isSmall_of_htmlWith hv
    exact ⟨v, rfl, hsmall, hspelling, Option.some.inj htags,
      record_of_folded_eq hsmall hspelling 18⟩

end HtmlLint
