import HtmlLint.Proofs.Construction.Course
import HtmlLint.Proofs.Construction.Foreign
import HtmlLint.Proofs.Token.Tiling

/-!
# Whole tags

A tag comes as several tokens: its beginning, its attributes and its end.  In the tokens of a source
they stand next to each other (`Token.IsTag`), and where the source can be cut up to its end, every
tag that begins also ends (`Token.Tiles.exists_isTag`).  What the construction makes of a tag
depends on all of its tokens: the beginning of a start tag opens an element, which is the current
one up to the end of the tag (`InStartTag.takeIn`), while an end tag does nothing before its end
(`takeIn_endTag`).  All elements come from start tags: `exists_startTag_of_element`.
-/

namespace HtmlLint

/-- The tokens of a tag: its beginning, its attributes and its end. -/
structure Token.IsTag (first : Token) (attributes : List Token) (last : Token) : Prop where
  first_kind : first.kind = .tagOpen
  attributes_kind : ∀ t ∈ attributes, t.kind = .attrName ∨ t.kind = .attrValue
  last_kind : last.kind = .tagClose

/-! ## Tags of a source -/

namespace Token

variable {length k : Nat} {inTag : Bool}

/-- What comes after some tokens that tile a text tiles what is left of the text. -/
private theorem Tiles.append_right {whole : Prop} {p : Position} {cs : List Char}
    {ts rest : List Token} {t : Token} (h : Tiles whole inTag p cs (ts ++ t :: rest)) :
    ∃ q cs', Tiles whole t.kind.leadsIntoTag q cs' rest := by
  induction ts generalizing inTag p cs with
  | nil =>
    obtain ⟨gap, later, -, -, -, -, -, hlater⟩ := h
    exact ⟨_, later, hlater⟩
  | cons u ts ih =>
    obtain ⟨gap, later, -, -, -, -, -, hlater⟩ := h
    exact ih hlater

/-- Every tag that begins in a source that can be cut up has its end. -/
theorem Tiles.exists_isTag {whole : Prop} {p : Position} {cs : List Char} {before rest : List Token}
    {first : Token} (h : Tiles whole inTag p cs (before ++ first :: rest)) (hwhole : whole)
    (hfirst : first.kind = .tagOpen) :
    ∃ attributes last after, rest = attributes ++ last :: after ∧ IsTag first attributes last := by
  obtain ⟨q, cs', hrest⟩ := h.append_right
  rw [hfirst] at hrest
  obtain ⟨attributes, last, after, hsplit, hattributes, hlast⟩ :=
    Tiles.exists_attributes hrest hwhole
  exact ⟨attributes, last, after, hsplit, hfirst, hattributes, hlast⟩

end Token

namespace Construction

variable {v : Vocabulary} {c : Construction} {low k : Nat} {inTag : Bool}

/-! ## Closing elements -/

/-- Closing elements all in the same way changes how and where they end, and nothing else. -/
theorem get?_closeAll (how : Node → Closing) {kind : CloseKind} {stop : Nat}
    (hkind : ∀ n, (how n).kind = kind) (hstop : ∀ n, (how n).stop = stop) (ids : List NodeId)
    (d : Document) (i : Nat) :
    (closeAll how ids d).1.get? i =
      if i ∈ ids then (d.get? i).map fun n =>
        { n with closed := some kind, endOffset := some (max stop n.location.stop) }
      else d.get? i := by
  induction ids generalizing d with
  | nil => rfl
  | cons id ids ih =>
    have hfirst : (closeOne id (how (d.node id)) d).1 = d.close id kind stop := by
      simp only [closeOne, hkind, hstop]
    show (closeAll how ids (closeOne id (how (d.node id)) d).1).1.get? i = _
    rw [hfirst, ih, Document.get?_close]
    -- an element that is closed twice ends the second time as it did the first time
    by_cases hi : id = i
    · subst hi
      by_cases hmem : id ∈ ids
      · simp [hmem, Function.comp_def]
      · simp [hmem]
    · by_cases hmem : i ∈ ids
      · simp [hi, hmem]
      · simp [hi, Ne.symm hi, hmem]

/-! ## Start tags -/

/-- The construction is inside the start tag of an element, which is the current one. -/
structure InStartTag (id : NodeId) (left : List NodeId) (c : Construction) : Prop where
  started : c.started = true
  open_eq : c.openElements = id :: left
  pending_eq : ∃ last, c.pending = some (.opening id last)

/-- The beginning of a start tag opens an element. -/
theorem push_startTag {first : Token} (hkind : first.kind = .tagOpen)
    (hend : first.isEndTag = false) :
    let id := c.document.size
    (∃ left, (c.push v first).1.InStartTag id left) ∧
      .tagOpen id first.location ∈ (c.push v first).2.map Moment.event := by
  intro id
  have hstart : c.start.1.document = c.document ∧ c.start.1.started = true := by
    unfold start
    split <;> simp_all
  have hpush : c.push v first =
      ((c.start.1.openTag v first).1, c.start.2 ++ (c.start.1.openTag v first).2) := by
    simp only [push_eq, step_eq, hkind, hend]
    rfl
  rw [hpush, openTag_eq, hstart.1]
  refine ⟨⟨_, hstart.2, rfl, none, rfl⟩, ?_⟩
  simp [id]

/-- Storing an attribute does not lead out of the tag. -/
private theorem InStartTag.storeLast {id : NodeId} {left : List NodeId} (h : c.InStartTag id left)
    (value : Option Token) :
    (c.storeLast value).1.InStartTag id left := by
  obtain ⟨last, hlast⟩ := h.pending_eq
  cases last with
  | none => simpa only [Construction.storeLast, hlast] using h
  | some last =>
    simp only [Construction.storeLast, hlast]
    exact ⟨h.started, h.open_eq, none, rfl⟩

/-- Up to its end the tag stays that of the element. -/
theorem InStartTag.takeIn {id : NodeId} {left : List NodeId} (h : c.InStartTag id left)
    {attributes : List Token}
    (hattributes : ∀ t ∈ attributes, t.kind = .attrName ∨ t.kind = .attrValue) :
    (Construction.takeIn v attributes c).1.InStartTag id left := by
  induction attributes generalizing c with
  | nil => exact h
  | cons t attributes ih =>
    have hstep : (c.step v t).1.InStartTag id left := by
      cases hattributes t (List.mem_cons_self ..) with
      | inl hkind =>
        obtain ⟨hs, hids, last, hlast⟩ := h.storeLast none
        simp only [step_eq, hkind, expectValue, hlast]
        exact ⟨hs, hids, _, rfl⟩
      | inr hkind =>
        simp only [step_eq, hkind]
        exact h.storeLast (some t)
    simp only [Construction.takeIn, push_of_started h.started]
    exact ih hstep fun u hu => hattributes u (List.mem_cons_of_mem _ hu)

/-- The end of a start tag makes the current element wider and closes it if it has no content. -/
theorem finishOpening_of_top {id : NodeId} {left : List NodeId} (h : c.openElements = id :: left)
    (t : Token) :
    c.finishOpening id t =
      let d := c.document.widen id t.location t.isSelfClosing
      let n := d.node id
      let kind := if n.void then CloseKind.void else .selfClosed
      if n.void || t.isSelfClosing then
        let closed := d.close id kind t.location.stop
        ({ c with document := closed, openElements := left, pending := none },
          [⟨.tagClose id none kind n.location, closed⟩, ⟨.elementReady id n.location, closed⟩])
      else ({ c with document := d, pending := none }, []) := by
  simp only [finishOpening_eq, h]
  rfl

/-- The end of a start tag closes an element that is void or whose tag ends in a slash. -/
theorem InStartTag.push_last {id : NodeId} {left : List NodeId} (h : c.InStartTag id left)
    (hid : id < c.document.size) {last : Token} (hlast : last.kind = .tagClose)
    (hempty : (c.document.node id).void = true ∨ last.isSelfClosing = true) :
    let done := c.push v last
    ∃ n, done.1.document.get? id = some n ∧ n.void = (c.document.node id).void ∧
      n.closed = some (if n.void then .void else .selfClosed) ∧ done.1.openElements = left ∧
      .tagClose id none (if n.void then .void else .selfClosed) n.location ∈ done.2.map
        Moment.event := by
  intro done
  obtain ⟨-, hopen, pending, hpending⟩ := h.storeLast none
  -- storing the last attribute and widening the start tag keep what closing depends on
  have hwiden : c.document.Retains
      ((c.storeLast none).1.document.widen id last.location last.isSelfClosing) :=
    (storeLast_retains none c).1.trans (.modify fun _ => ⟨⟨rfl, rfl, rfl, rfl⟩, rfl⟩)
  generalize hd : (c.storeLast none).1.document.widen id last.location
    last.isSelfClosing = d at hwiden
  have hvoid : (d.node id).void = (c.document.node id).void :=
    (Document.Matches.node hwiden id).void_eq.symm
  have hnow : ((d.node id).void || last.isSelfClosing) = true := by
    rw [hvoid, Bool.or_eq_true]
    exact hempty
  have hdone : done = (((c.storeLast none).1.finishOpening id last).1,
      (c.storeLast none).2 ++ ((c.storeLast none).1.finishOpening id last).2) := by
    simp only [done, push_of_started h.started, step_eq, hlast, finishTag_eq, hpending]
  simp only [finishOpening_of_top hopen, hd, if_pos hnow] at hdone
  obtain ⟨n, hn⟩ := Document.exists_get?_of_lt (hwiden.size_eq ▸ hid)
  have hnode : d.node id = n := Document.node_of_get? hn
  rw [hdone]
  refine ⟨_, by rw [Document.get?_close, if_pos rfl, hn]; rfl, ?_, ?_, rfl, ?_⟩
  · rw [← hvoid, hnode]
  · rw [hnode]
  · simp [hnode]

/-- A token adds a node if it begins a start tag or is text. -/
theorem size_step (h : c.Ready) (v : Vocabulary) (t : Token) :
    (c.step v t).1.document.size = c.document.size ∨
    (c.step v t).1.document.size = c.document.size + 1 ∧
      (t.kind = .tagOpen ∧ t.isEndTag = false ∨
        t.kind = .text ∧ ∃ n, (c.step v t).1.document.get? c.document.size = some n ∧
        n.kind = .text t.text) := by
  cases hkind : t.kind with
  | tagOpen =>
    simp only [step_eq, hkind]
    cases hend : t.isEndTag with
    | true => exact .inl rfl
    | false =>
      right
      -- a start tag adds its element, whatever it closes first
      have hsize := (openTag_retains v t c).size_eq
      rw [Document.size_adopt] at hsize
      exact ⟨hsize, .inl ⟨trivial, rfl⟩⟩
  | attrName =>
    left
    simp only [step_eq, hkind, expectValue]
    split <;> exact (storeLast_retains none c).1.size_eq
  | attrValue =>
    left
    simp only [step_eq, hkind]
    exact (storeLast_retains (some t) c).1.size_eq
  | tagClose =>
    left
    simp only [step_eq, hkind]
    exact ((storeLast_retains none c).1.trans (finishTag_retains v t _).1).size_eq
  | text =>
    right
    simp only [step_eq, hkind]
    have hcurrent : c.current < c.document.size := h.sound.head_lt_size
    exact ⟨Document.size_adopt .., .inr ⟨trivial, _, Document.get?_adopt_new hcurrent _, rfl⟩⟩
  | comment | doctype =>
    left
    simp only [step_eq, hkind]

/-- All elements come from start tags. -/
theorem exists_startTag_of_element (h : c.Ready) {ts : List Token} {i : Nat} {n : Node}
    (hn : (takeIn v ts c).1.document.get? i = some n) (hkind : n.kind = .element)
    (hi : c.document.size ≤ i) :
    ∃ before first rest, ts = before ++ first :: rest ∧ first.kind = .tagOpen ∧
    first.isEndTag = false ∧
      i = (takeIn v before c).1.document.size := by
  induction ts generalizing c with
  | nil =>
    -- no token is left to make the node
    have hlt := Document.lt_size_of_get? hn
    simp only [takeIn] at hlt
    omega
  | cons t ts ih =>
    have hready := h.start.step v t
    have hstart : c.start.1.document = c.document := congrArg Stage.document (stage_start c)
    by_cases hlater : (c.push v t).1.document.size ≤ i
    · obtain ⟨before, first, rest, hts, hfirst, hend, hsize⟩ := ih hready hn hlater
      exact ⟨t :: before, first, rest, by rw [hts]; rfl, hfirst, hend, hsize⟩
    · -- the node is the one that this token adds
      have hsize := size_step h.start v t
      simp only [push_eq] at hlater
      rw [hstart] at hsize
      obtain hsame | ⟨hmore, ⟨hfirst, hend⟩ | ⟨-, x, hx, htext⟩⟩ := hsize
      · omega
      · have hi' : i = c.document.size := by omega
        exact ⟨[], t, ts, rfl, hfirst, hend, hi'⟩
      · -- text stays text
        have hi' : i = c.document.size := by omega
        obtain ⟨n', hn', hlike⟩ := takeIn_foreshadows hready ts _ x hx
        rw [← hi'] at hn'
        have heq : n' = n := Option.some.inj (hn'.symm.trans hn)
        rw [← heq, ← hlike.kind_eq, htext] at hkind
        cases hkind

/-! ## End tags -/

/-- Attributes of an end tag mean nothing. -/
private theorem takeIn_attributes_of_closing {name : String} {location : Location}
    (hs : c.started = true) (hp : c.pending = some (.closing name location))
    {attributes : List Token} (h : ∀ t ∈ attributes, t.kind = .attrName ∨ t.kind = .attrValue) :
    takeIn v attributes c = (c, []) := by
  have hstore : ∀ value, c.storeLast value = (c, []) := by
    intro value
    simp only [storeLast, hp]
  induction attributes with
  | nil => rfl
  | cons t attributes ih =>
    have hstep : c.step v t = (c, []) := by
      cases h t (List.mem_cons_self ..) with
      | inl hkind => simp only [step_eq, hkind, hstore, expectValue, hp]
      | inr hkind => simp only [step_eq, hkind, hstore]
    simp only [takeIn, push_of_started hs, hstep, ih fun u hu => h u (List.mem_cons_of_mem _ hu)]
    rfl

/-- The tokens of an end tag before its end are kept for later. -/
theorem takeIn_endTag {first : Token} {attributes : List Token} (hfirst : first.isEndTag = true)
    (hattributes : ∀ t ∈ attributes, t.kind = .attrName ∨ t.kind = .attrValue) :
    takeIn v (first :: attributes) c =
      ({ c with pending := some (.closing first.tagName first.location), started := true },
        c.start.2) := by
  have hkind : first.kind = .tagOpen := by
    unfold Token.isEndTag at hfirst
    simp only [Bool.and_eq_true, beq_iff_eq] at hfirst
    exact hfirst.1
  have hpush : c.push v first =
      ({ c with pending := some (.closing first.tagName first.location), started := true },
        c.start.2) := by
    simp only [push_eq, step_eq, hkind, hfirst, if_true, List.append_nil]
    unfold start
    split <;> simp_all
  simp only [takeIn, hpush]
  rw [takeIn_attributes_of_closing rfl rfl hattributes, List.append_nil]

/-- The end of an end tag closes what the tag names. -/
theorem push_of_closing {name : String} {location : Location} (hs : c.started = true)
    (hp : c.pending = some (.closing name location)) {last : Token}
    (hlast : last.kind = .tagClose) :
    c.push v last = ({ c with pending := none } : Construction).closeTag v name
      (location.extendTo last.location) := by
  have hstore : c.storeLast none = (c, []) := by simp only [storeLast, hp]
  simp only [push_of_started hs, step_eq, hlast, hstore, finishTag_eq, hp, List.nil_append]

end Construction

end HtmlLint
