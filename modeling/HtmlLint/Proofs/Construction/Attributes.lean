import HtmlLint.Proofs.Construction.Childless
import HtmlLint.Proofs.Document.Attributes

/-!
# Which attributes elements get

The events of a construction tell which attributes each element is given (`Event.attributesOf`), and
at every stage an element has what is kept of them (`Stage.Keeps`).  An event comes before its
attribute is stored, so that what an observer sees of an element at such an event is what is kept of
those given before.

All attributes of an element are given inside its start tag.  Each name makes one, with the value
that comes right after it (`Token.attributes`), although the construction cannot know before the
next token whether there is a value (`takeIn_startTag`).  Before the tag begins there is no such
element, and after its end nothing waits for it any more.
-/

namespace HtmlLint

/-! ## Events -/

namespace Event

/-- The attribute that the event gives to the element of this number. -/
def attributeOf? (id : NodeId) : Event → Option Attribute
  | .attr target a => if target = id then some a else none
  | _ => none

/-- The attributes that the element of this number is given, in the order of the events. -/
def attributesOf (id : NodeId) (es : List Event) : List Attribute :=
  es.filterMap (attributeOf? id)

@[simp] theorem attributesOf_nil (id : NodeId) : attributesOf id [] = [] := rfl

/-- Attributes are told in the order of the events. -/
@[simp] theorem attributesOf_append (id : NodeId) (es es' : List Event) :
    attributesOf id (es ++ es') = attributesOf id es ++ attributesOf id es' :=
  List.filterMap_append

/-- One attribute is told of one node. -/
theorem attributesOf_attr (id target : NodeId) (a : Attribute) :
    attributesOf id [.attr target a] = if target = id then [a] else [] := by
  by_cases h : target = id <;> simp [attributesOf, attributeOf?, h]

/-- The attributes of a node are those that events tell of it. -/
private theorem mem_attributesOf {id : NodeId} {es : List Event} {a : Attribute} :
    a ∈ attributesOf id es ↔ .attr id a ∈ es := by
  rw [attributesOf, List.mem_filterMap]
  constructor
  · rintro ⟨e, he, hgiven⟩
    cases e with
    | attr target b =>
      rw [attributeOf?, Option.ite_none_right_eq_some] at hgiven
      obtain ⟨rfl, hb⟩ := hgiven
      cases hb
      exact he
    | _ => cases hgiven
  · intro h
    exact ⟨_, h, if_pos rfl⟩

/-- Other events tell no attributes. -/
theorem attributesOf_eq_nil (id : NodeId) {es : List Event} (h : ∀ e ∈ es, e.kind ≠ .attr) :
    attributesOf id es = [] := by
  rw [List.eq_nil_iff_forall_not_mem]
  intro a ha
  exact h _ (mem_attributesOf.mp ha) rfl

/-- The first and the last event of a document are about no attribute. -/
theorem attributesOf_document (id : NodeId) (es : List Event) :
    attributesOf id ([.domLoad] ++ es ++ [.domReady]) = attributesOf id es := by
  rw [attributesOf_append, attributesOf_append]
  exact List.append_nil _

end Event

open Event (attributesOf attributesOf_eq_nil)

/-! ## What elements have at every stage -/

/-- At most one attribute is given at a time, to an element that is there and does not have it
yet. -/
theorem Move.quiet_or_attr {s t : Stage} {ms : List Moment} (hm : Move s ms t) (hs : s.Sound) :
    (∀ m ∈ ms, m.event.kind ≠ .attr) ∨
      ∃ id a, ms = [⟨.attr id a, s.document⟩] ∧ id < s.document.size ∧
      t.document = s.document.setAttribute id a := by
  cases hm with
  | @remark d ids e he =>
    left
    intro m hm
    rw [List.mem_singleton.mp hm]
    cases e with
    | attr => exact absurd he id
    | _ => simp [Event.kind]
  | @store d id ids a => exact .inr ⟨id, a, rfl, hs.lt_size (List.mem_cons_self ..), rfl⟩
  | widen | text | announce => exact .inl fun m hm => nomatch hm
  | close | place => exact .inl (by simp [Event.kind])

/-- Every node has what is kept of the attributes that it was given, and nothing is given to nodes
that are not there. -/
structure Stage.Keeps (ms : List Moment) (s : Stage) : Prop where
  attributes_eq : ∀ (i : Nat) (n : Node), s.document.get? i = some n →
    n.attributes = Attribute.kept (attributesOf i (ms.map Moment.event))
  none_ahead : ∀ i : Nat, s.document.size ≤ i → attributesOf i (ms.map Moment.event) = []

namespace Stage.Keeps

variable {s t : Stage} {before ms : List Moment}

/-- At the start there are no attributes. -/
theorem ofLength (length : Nat) : (Stage.ofLength length).Keeps [] where
  attributes_eq := by
    intro i n hn
    have hi : i < 1 := Document.lt_size_of_get? hn
    obtain rfl : i = 0 := by omega
    cases hn
    rfl
  none_ahead _ _ := rfl

/-- A change without an attribute: the nodes that were there have what they had, and new ones have
none. -/
private theorem quiet (h : s.Keeps before) (hms : ∀ m ∈ ms, m.event.kind ≠ .attr)
    (hsize : s.document.size ≤ t.document.size)
    (hd : ∀ (i : Nat) (n : Node), t.document.get? i = some n →
      (∃ o, s.document.get? i = some o ∧ n.attributes = o.attributes) ∨ s.document.size ≤ i ∧
      n.attributes = []) :
    t.Keeps (before ++ ms) := by
  -- the events add nothing to any element's attributes, so only the nodes are left to compare
  have hsame : ∀ i, attributesOf i ((before ++ ms).map Moment.event) =
      attributesOf i (before.map Moment.event) := by
    intro i
    rw [List.map_append, Event.attributesOf_append,
      attributesOf_eq_nil _ (List.forall_mem_map.mpr hms), List.append_nil]
  constructor
  · intro i n hn
    rw [hsame]
    obtain ⟨o, ho, heq⟩ | ⟨hi, heq⟩ := hd i n hn
    · rw [heq]
      exact h.attributes_eq i o ho
    · rw [heq, h.none_ahead i hi]
      rfl
  · intro i hi
    rw [hsame]
    exact h.none_ahead i (Nat.le_trans hsize hi)

/-- A change of one node that leaves its attributes alone. -/
private theorem modify {d : Document} {ids ids' : List NodeId} {new new' : Option Node}
    (h : (Stage.mk d ids new).Keeps before) (hms : ∀ m ∈ ms, m.event.kind ≠ .attr) (id : Nat)
    {f : Node → Node} (hf : ∀ n, (f n).attributes = n.attributes) :
    (Stage.mk (d.modify id f) ids' new').Keeps (before ++ ms) := by
  refine h.quiet hms (Nat.le_of_eq (d.size_modify id f).symm) fun i n hn => .inl ?_
  rw [Document.get?_modify] at hn
  split at hn
  · obtain ⟨o, ho, rfl⟩ := Option.map_eq_some_iff.mp hn
    exact ⟨o, ho, hf o⟩
  · exact ⟨n, hn, rfl⟩

/-- A new node without attributes. -/
private theorem adopt {d : Document} {ids ids' : List NodeId} {up up' : Option Node}
    (h : (Stage.mk d ids up).Keeps before) (hms : ∀ m ∈ ms, m.event.kind ≠ .attr) {p : Nat}
    (hp : p < d.size) {new : Node} (hnew : new.attributes = []) :
    (Stage.mk (d.adopt p new) ids' up').Keeps (before ++ ms) := by
  refine h.quiet hms (by simp) fun i n hn => ?_
  by_cases hi : i = d.size
  · subst hi
    rw [Document.get?_adopt_new hp] at hn
    cases hn
    exact .inr ⟨Nat.le_refl _, hnew⟩
  · obtain ⟨o, ho, rfl⟩ := Document.exists_of_get?_adopt hn hi
    exact .inl ⟨o, ho, rfl⟩

/-- An attribute makes a difference to the element that is given it, and no other move makes one. -/
theorem move (hm : Move s ms t) (hs : s.Sound) (h : s.Keeps before) : t.Keeps (before ++ ms) := by
  obtain hquiet | ⟨id, a, rfl, hid, hd⟩ := hm.quiet_or_attr hs
  · cases hm with
    | remark | announce => exact h.quiet hquiet (Nat.le_refl _) fun i n hn => .inl ⟨n, hn, rfl⟩
    | store => exact absurd rfl (hquiet _ (List.mem_singleton_self _))
    | widen | close => exact h.modify hquiet _ fun _ => rfl
    | text => exact h.adopt hquiet hs.head_lt_size rfl
    | @place d ids n =>
      obtain ⟨tag, location, foreign, void, hn⟩ := hs.upcoming_eq n rfl
      exact h.adopt hquiet hs.head_lt_size (by rw [hn]; rfl)
  · -- one attribute is given, and to one element: `kept_concat` says what storing it does to the
    -- list
    have hmore :
        ∀ i, attributesOf i ((before ++ [Moment.mk (.attr id a) s.document]).map Moment.event) =
        attributesOf i (before.map Moment.event) ++ if id = i then [a] else [] := by
      intro i
      rw [List.map_append, Event.attributesOf_append, List.map_singleton, Event.attributesOf_attr]
    constructor
    · intro i n hn
      rw [hmore]
      rw [hd, Document.setAttribute, Document.get?_modify] at hn
      by_cases hi : id = i
      · rw [if_pos hi] at hn ⊢
        obtain ⟨o, ho, rfl⟩ := Option.map_eq_some_iff.mp hn
        rw [Attribute.kept_concat, ← h.attributes_eq i o ho]
      · rw [if_neg hi] at hn ⊢
        rw [List.append_nil]
        exact h.attributes_eq i n hn
    · intro i hi
      rw [hd, Document.setAttribute, Document.size_modify] at hi
      have hne : id ≠ i := Nat.ne_of_lt (Nat.lt_of_lt_of_le hid hi)
      rw [hmore, if_neg hne, List.append_nil]
      exact h.none_ahead i hi

/-- What an observer sees of an element that is given an attribute is what is kept of those given
before. -/
theorem attributes_node (h : s.Keeps before) {id : Nat} (hid : id < s.document.size) :
    (s.document.node id).attributes =
      Attribute.kept (attributesOf id (before.map Moment.event)) := by
  obtain ⟨n, hn⟩ := Document.exists_get?_of_lt hid
  rw [Document.node_of_get? hn]
  exact h.attributes_eq id n hn

/-- Every run keeps the attributes that are told, move by move. -/
theorem run (hr : Run s ms t) (hs : s.Sound) (h : s.Keeps before) : t.Keeps (before ++ ms) :=
  (hr.invariant (P := fun ms s => s.Sound ∧ s.Keeps ms)
    (fun hm h => ⟨h.1.move hm, h.2.move hm h.1⟩) before ⟨hs, h⟩).2

end Stage.Keeps

/-- In the end every node has what is kept of the attributes that it was given. -/
theorem Construction.record_attributes_eq (v : Vocabulary) (ts : List Token) (length : Nat)
    {i : Nat} {n : Node} (hn : (record v ts length).1.get? i = some n) :
    n.attributes = Attribute.kept (attributesOf i ((record v ts length).2.map Moment.event)) := by
  obtain ⟨ms, d, hrun, hrecord⟩ := record_run v ts length
  have hkeeps := (Stage.Keeps.ofLength length).run hrun (.ofLength length)
  have hevents : (record v ts length).2.map Moment.event =
      [.domLoad] ++ ms.map Moment.event ++ [.domReady] := by
    simp [hrecord]
  rw [hrecord] at hn
  obtain ⟨o, ho, heq⟩ : ∃ o, d.get? i = some o ∧ n.attributes = o.attributes := by
    rw [Document.ended, Document.get?_modify] at hn
    split at hn
    · obtain ⟨o, ho, rfl⟩ := Option.map_eq_some_iff.mp hn
      exact ⟨o, ho, rfl⟩
    · exact ⟨n, hn, rfl⟩
  rw [hevents, Event.attributesOf_document, heq]
  exact hkeeps.attributes_eq i o ho

/-! ## Which element a token gives an attribute to -/

namespace Construction

variable {v : Vocabulary} {c : Construction}

/-- Where elements begin and end, no attribute is given. -/
private theorem attributesOf_of_isStructural (i : NodeId) {ms : List Moment}
    (h : ∀ m ∈ ms, m.event.kind.isStructural = true) :
    attributesOf i (ms.map Moment.event) = [] := by
  apply attributesOf_eq_nil
  rw [List.forall_mem_map]
  intro m hm hattr
  have hstructural := h m hm
  rw [hattr] at hstructural
  cases hstructural

/-- A token gives an attribute only to the element whose start tag has not ended. -/
private theorem step_attributesOf (v : Vocabulary) (t : Token) (c : Construction) (i : NodeId) :
    attributesOf i ((c.step v t).2.map Moment.event) = [] ∨
    ∃ last, c.pending = some (.opening i (some last)) := by
  by_cases hnone : attributesOf i ((c.step v t).2.map Moment.event) = []
  · exact .inl hnone
  · right
    obtain ⟨a, ha⟩ := List.exists_mem_of_ne_nil _ hnone
    obtain ⟨m, hm, hattr⟩ := List.mem_map.mp (Event.mem_attributesOf.mp ha)
    obtain hstructural | ⟨id, last, b, hp, hgiven⟩ | ⟨-, hsaid⟩ | ⟨-, hdoctype⟩ := mem_step_cases hm
    · rw [hattr] at hstructural
      cases hstructural
    · rw [hattr] at hgiven
      cases hgiven
      exact ⟨last, hp⟩
    · rw [hattr] at hsaid
      obtain hkind | hkind := Directive.kind_of_event? hsaid <;> cases hkind
    · rw [hattr] at hdoctype
      cases hdoctype

/-- The first event tells no attribute. -/
private theorem start_attributesOf (c : Construction) (i : NodeId) :
    attributesOf i (c.start.2.map Moment.event) = [] := by
  simp only [start]
  split <;> rfl

/-- A start tag that has not ended has begun with this token, or had begun before. -/
private theorem pending_step {t : Token} {i : NodeId} {last : Option PendingAttribute}
    (h : (c.step v t).1.pending = some (.opening i last)) :
    (∃ earlier, c.pending = some (.opening i earlier)) ∨ i = c.document.size := by
  -- storing an attribute leaves the tag as it is
  have hstore : ∀ {value : Option Token} {last : Option PendingAttribute},
      (c.storeLast value).1.pending = some (.opening i last) →
      ∃ earlier, c.pending = some (.opening i earlier) := by
    intro value last h
    simp only [storeLast] at h
    split at h
    · rename_i hp
      cases h
      exact ⟨_, hp⟩
    · exact ⟨_, h⟩
  cases hkind : t.kind with
  | tagOpen =>
    simp only [step_eq, hkind] at h
    split at h
    · cases h
    · rw [openTag_eq] at h
      cases h
      exact .inr rfl
  | attrName =>
    left
    simp only [step_eq, hkind, expectValue] at h
    split at h
    · rename_i hp
      cases h
      exact hstore hp
    · exact hstore h
  | attrValue =>
    left
    simp only [step_eq, hkind] at h
    exact hstore h
  | tagClose =>
    simp only [step_eq, hkind, pending_finishTag] at h
    cases h
  | text | comment | doctype =>
    left
    simp only [step_eq, hkind] at h
    exact ⟨_, h⟩

/-- A document does not lose nodes. -/
private theorem size_le_step (h : c.Ready) (v : Vocabulary) (t : Token) :
    c.document.size ≤ (c.step v t).1.document.size := by
  obtain hsame | ⟨hmore, -⟩ := size_step h v t <;> omega

/-- Taking in tokens takes no node away. -/
private theorem size_le_takeIn (h : c.Ready) (v : Vocabulary) (ts : List Token) :
    c.document.size ≤ (takeIn v ts c).1.document.size := by
  induction ts generalizing c with
  | nil => exact Nat.le_refl _
  | cons t ts ih =>
    have hstart : c.start.1.document = c.document := congrArg Stage.document (stage_start c)
    rw [← hstart]
    exact Nat.le_trans (size_le_step h.start v t) (ih (h.start.step v t))

/-! ## Outside of the start tag -/

/-- No element is given an attribute before it is there. -/
private theorem takeIn_attributesOf_ahead (h : c.Ready) (ts : List Token) {i : Nat}
    (hi : (takeIn v ts c).1.document.size ≤ i) :
    attributesOf i ((takeIn v ts c).2.map Moment.event) = [] := by
  induction ts generalizing c with
  | nil => rfl
  | cons t ts ih =>
    have hready := h.start.step v t
    have hlater := ih hready hi
    have hstep : attributesOf i ((c.start.1.step v t).2.map Moment.event) = [] := by
      refine (step_attributesOf v t c.start.1 i).resolve_right ?_
      rintro ⟨last, hp⟩
      -- an element that waits for a value is open, so it is there
      have hlt : i < c.start.1.document.size :=
        h.start.sound.lt_size (List.mem_of_mem_head? (h.start.pending_top i _ hp))
      have hle := Nat.le_trans (size_le_step h.start v t) (size_le_takeIn hready v ts)
      exact absurd (Nat.le_trans hle hi) (Nat.not_le.mpr hlt)
    simp only [takeIn, push_eq, List.map_append, Event.attributesOf_append, start_attributesOf,
      hstep, hlater, List.append_nil]

/-- No element is given an attribute after its start tag. -/
private theorem takeIn_attributesOf_behind (h : c.Ready) {i : Nat} (hi : i < c.document.size)
    (hp : ∀ last, c.pending ≠ some (.opening i last)) (ts : List Token) :
    attributesOf i ((takeIn v ts c).2.map Moment.event) = [] := by
  induction ts generalizing c with
  | nil => rfl
  | cons t ts ih =>
    have hstart : c.start.1.document = c.document := congrArg Stage.document (stage_start c)
    rw [← hstart] at hi
    rw [← pending_start] at hp
    have hstep :=
      (step_attributesOf v t c.start.1 i).resolve_right fun hlast => hlast.elim fun last => hp _
    have hlater := ih (h.start.step v t) (Nat.lt_of_lt_of_le hi (size_le_step h.start v t)) <| by
      intro last hlast
      obtain ⟨earlier, hearlier⟩ | hnew := pending_step hlast
      · exact hp earlier hearlier
      · exact absurd hnew (Nat.ne_of_lt hi)
    simp only [takeIn, push_eq, List.map_append, Event.attributesOf_append, start_attributesOf,
      hstep, List.nil_append]
    exact hlater

/-- The end of the source tells no attribute. -/
private theorem finish_attributesOf (v : Vocabulary) (c : Construction) (i : NodeId) :
    attributesOf i ((c.finish v).2.map Moment.event) = [] := by
  rw [finish_eq]
  have hclosed := attributesOf_of_isStructural i
    (closeAll_isStructural (closingAtEnd v c.start.1.document.sourceLength) c.start.1.openElements
      c.start.1.document)
  simp only [List.map_append, Event.attributesOf_append, start_attributesOf, hclosed]
  rfl

end Construction

/-! ## Inside of the start tag -/

/-- The value that comes right at the beginning of some tokens, if one does. -/
def Token.valueAhead? : List Token → Option AttributeValue
  | [] => none
  | t :: _ => if t.kind = .attrValue then some ⟨t.attrValue.1, t.attrValue.2, t.location⟩ else none

/-- The attributes that the tokens of a tag tell: one for each name, with the value that comes right
after it. -/
def Token.attributes : List Token → List Attribute
  | [] => []
  | t :: ts =>
    (if t.kind = .attrName then [⟨t.text, t.location, valueAhead? ts⟩] else []) ++ attributes ts

/-- There is one attribute for each name. -/
theorem Token.map_key_attributes (ts : List Token) :
    (attributes ts).map (fun a => (a.key, a.location)) =
      (ts.filter fun t => t.kind == .attrName).map fun t => (t.text, t.location) := by
  induction ts with
  | nil => rfl
  | cons t ts ih =>
    rw [attributes, List.map_append, ih, List.filter_cons]
    by_cases ht : t.kind = .attrName <;> simp [ht]

namespace Construction

variable {v : Vocabulary} {c : Construction}

/-- Storing the attribute that has waited. -/
theorem storeLast_of_opening {id : NodeId} {last : Option PendingAttribute}
    (hp : c.pending = some (.opening id last)) (value : Option Token) :
    (c.storeLast value).1.pending = some (.opening id none) ∧
    (c.storeLast value).1.started = c.started ∧
    attributesOf id ((c.storeLast value).2.map Moment.event) = last.toList.map fun waiting =>
      ⟨waiting.key, waiting.location,
          value.map fun t => ⟨t.attrValue.1, t.attrValue.2, t.location⟩⟩ := by
  cases last with
  | none => simp [storeLast, hp]
  | some waiting => simp [storeLast, hp, Event.attributesOf_attr]

/-- From inside a start tag up to its end, the element is given the attribute that waits for a value
and those that are told by the tokens to come.  The induction is on these tokens: the first one
decides about the value that is waited for. -/
theorem takeIn_startTag {id : NodeId} {last : Option PendingAttribute} (hs : c.started = true)
    (hp : c.pending = some (.opening id last)) {attributes : List Token}
    (hattributes : ∀ t ∈ attributes, t.kind = .attrName ∨ t.kind = .attrValue) {closing : Token}
    (hclosing : closing.kind = .tagClose) :
    attributesOf id ((takeIn v (attributes ++ [closing]) c).2.map Moment.event) =
      (last.toList.map fun waiting =>
        ⟨waiting.key, waiting.location, Token.valueAhead? attributes⟩) ++
        Token.attributes attributes ∧
    (takeIn v (attributes ++ [closing]) c).1.pending = none := by
  induction attributes generalizing c last with
  | nil =>
    obtain ⟨-, -, hstore⟩ := storeLast_of_opening hp none
    have hlater :=
      attributesOf_of_isStructural id (finishTag_isStructural v closing (c.storeLast none).1)
    simp only [List.nil_append, takeIn, push_of_started hs, step_eq, hclosing, List.append_nil,
      List.map_append, Event.attributesOf_append, hlater, hstore, pending_finishTag, and_true]
    simp [Token.valueAhead?, Token.attributes]
  | cons t attributes ih =>
    have hrest := fun u hu => hattributes u (List.mem_cons_of_mem _ hu)
    simp only [List.cons_append, takeIn, push_of_started hs]
    cases hattributes t (List.mem_cons_self ..) with
    | inl hkind =>
      -- another name: what has waited gets no value, and the name waits from now on
      obtain ⟨hpending, hstarted, hstore⟩ := storeLast_of_opening hp none
      have hexpect : ((c.storeLast none).1.expectValue t).pending =
          some (.opening id (some ⟨t.text, t.location⟩)) ∧
          ((c.storeLast none).1.expectValue t).started = true := by
        simp only [expectValue, hpending, true_and]
        exact hstarted.trans hs
      obtain ⟨hlater, hnone⟩ := ih hexpect.2 hexpect.1 hrest
      simp only [step_eq, hkind, List.map_append, Event.attributesOf_append, hstore, hlater]
      refine ⟨?_, hnone⟩
      simp [Token.valueAhead?, Token.attributes, hkind]
    | inr hkind =>
      obtain ⟨hpending, hstarted, hstore⟩ := storeLast_of_opening hp (some t)
      obtain ⟨hlater, hnone⟩ := ih (hstarted.trans hs) hpending hrest
      simp only [step_eq, hkind, List.map_append, Event.attributesOf_append, hstore, hlater]
      refine ⟨?_, hnone⟩
      simp [Token.valueAhead?, Token.attributes, hkind]

/-- A whole start tag gives its element the attributes that it tells, and nothing is pending after
it. -/
private theorem takeIn_wholeTag (h : c.Ready) {first closing : Token} {attributes : List Token}
    (htag : Token.IsTag first attributes closing) (hend : first.isEndTag = false) :
    let done := takeIn v (first :: (attributes ++ [closing])) c
    attributesOf c.document.size (done.2.map Moment.event) = Token.attributes attributes ∧
    .tagOpen c.document.size first.location ∈ done.2.map Moment.event ∧ done.1.pending = none ∧
    c.document.size < done.1.document.size := by
  intro done
  have hready : (c.push v first).1.Ready := h.start.step v first
  obtain ⟨⟨left, hfirst⟩, hopening⟩ := push_startTag (c := c) (v := v) htag.first_kind hend
  have hstart : c.start.1.document = c.document := congrArg Stage.document (stage_start c)
  have hstep : c.start.1.step v first = c.start.1.openTag v first := by
    simp only [step_eq, htag.first_kind, hend]
    rfl
  have hgives : attributesOf c.document.size ((c.push v first).2.map Moment.event) = [] := by
    simp only [push_eq, hstep, List.map_append, Event.attributesOf_append, start_attributesOf,
      List.nil_append]
    exact attributesOf_of_isStructural _ (openTag_isStructural v first _)
  -- nothing waits for a value when a tag begins
  have hpending : (c.push v first).1.pending = some (.opening c.document.size none) := by
    simp only [push_eq, hstep, openTag_eq, hstart]
  obtain ⟨hgiven, hnone⟩ :=
    takeIn_startTag (v := v) hfirst.started hpending htag.attributes_kind htag.last_kind
  have hdone : done = ((takeIn v (attributes ++ [closing]) (c.push v first).1).1,
      (c.push v first).2 ++ (takeIn v (attributes ++ [closing]) (c.push v first).1).2) := rfl
  rw [hdone]
  refine ⟨?_, ?_, hnone, ?_⟩
  · simp only [List.map_append, Event.attributesOf_append, hgives, hgiven]
    rfl
  · rw [List.map_append]
    exact List.mem_append_left _ hopening
  · have hmem : c.document.size ∈ (c.push v first).1.openElements := by
      rw [hfirst.open_eq]
      exact List.mem_cons_self ..
    exact Nat.lt_of_lt_of_le (hready.sound.lt_size hmem) (size_le_takeIn hready v _)

/-- In a source that can be cut into tokens, every element has a start tag, and the attributes that
the element is given are those that the tokens of this tag tell. -/
theorem exists_startTag_attributesOf (v : Vocabulary) {source : String}
    (hwhole : (tokenize source).failure = none) :
    let made := record v (tokenize source).tokens (byteLength source.toList)
    ∀ n ∈ made.1.elements, ∃ before first attributes last after,
      (tokenize source).tokens = before ++ first :: (attributes ++ last :: after) ∧
      Token.IsTag first attributes last ∧
      first.isEndTag = false ∧ .tagOpen n.id first.location ∈ made.2.map Moment.event ∧
      attributesOf n.id (made.2.map Moment.event) = Token.attributes attributes := by
  intro made n hn
  obtain ⟨before, first, attributes, last, after, htokens, htag, hend, hid⟩ :=
    exists_startTag hwhole hn
  refine ⟨before, first, attributes, last, after, htokens, htag, hend, ?_⟩
  -- the tokens before the tag give nothing to a node not made yet, those after it nothing to one
  -- whose start tag is over
  have hsplit : (tokenize source).tokens = before ++ (first :: (attributes ++ [last]) ++ after) :=
    by simp [htokens]
  have hready : (takeIn v before (.ofLength (byteLength source.toList))).1.Ready :=
    Ready.takeIn (.ofLength _) v before
  have hahead := takeIn_attributesOf_ahead (v := v) (.ofLength (byteLength source.toList)) before
    (Nat.le_of_eq hid.symm)
  obtain ⟨hgiven, hopening, hpending, hlt⟩ := takeIn_wholeTag (v := v) hready htag hend
  have hbehind :=
    takeIn_attributesOf_behind (v := v) (hready.takeIn v _) hlt (by simp [hpending]) after
  rw [← hid] at hgiven hopening hbehind
  simp only [made, record_eq, hsplit, takeIn_append, List.map_append, Event.attributesOf_append,
    hahead, hgiven, hbehind, finish_attributesOf, List.append_nil, List.nil_append, and_true]
  simp only [List.mem_append, hopening, true_or, or_true]

end Construction

end HtmlLint
