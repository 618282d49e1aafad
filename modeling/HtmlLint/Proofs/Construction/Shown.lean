import HtmlLint.Proofs.Construction.Ranges

/-!
# What observers are shown

The document of a moment is the one before a move or the one after it, with the upcoming element
beside the tree (`Move.shown_of_mem`).  So what holds of all stages holds of all that observers see:

* every place that a document or an event tells lies in the source (`record_liesIn`), and
* a node starts where it starts in the finished document, and what a start tag holds lies in the
  start tag that the node has there (`Course.tagsIn`).

The second needs to look ahead, because an attribute is stored before its start tag has ended:
`Progress.Covers` tells of a byte that it lies in the start tag of a node, or that it will.
-/

namespace HtmlLint

/-- The document that observers see at a stage. -/
def Stage.shown (s : Stage) : Document :=
  s.document.showing s.upcoming

/-- Observers see the document before a move or the one after it. -/
theorem Move.shown_of_mem {s t : Stage} {ms : List Moment} (h : Move s ms t) {m : Moment}
    (hm : m ∈ ms) :
    m.document = s.shown ∨ m.document = t.shown := by
  cases h with
  | remark he =>
    rw [List.mem_singleton.mp hm]
    exact .inl rfl
  | store a =>
    rw [List.mem_singleton.mp hm]
    exact .inl rfl
  | widen | text | announce => cases hm
  | close location stop hk =>
    right
    simp only [List.mem_cons, List.not_mem_nil, or_false] at hm
    obtain rfl | rfl := hm <;> rfl
  | place =>
    rw [List.mem_singleton.mp hm]
    exact .inr rfl

/-! ## Places in the source -/

namespace Document.LiesIn

variable {source : List Char} {d : Document}

/-- The root is the whole source. -/
private theorem ofLength (source : List Char) :
    (Document.ofLength (byteLength source)).LiesIn source := by
  intro i n hn
  have hi : i < 1 := lt_size_of_get? hn
  obtain rfl : i = 0 := by omega
  cases hn
  exact ⟨[], source, [], by simp, rfl⟩

/-- A change that keeps the place of a node in the source keeps all of them there. -/
private theorem modify (h : d.LiesIn source) (j : Nat) {f : Node → Node}
    (hf : ∀ n, n.location.LiesIn source → (f n).location.LiesIn source) :
    (d.modify j f).LiesIn source := by
  intro i n hn
  rw [get?_modify] at hn
  split at hn
  · obtain ⟨m, hm, rfl⟩ := Option.map_eq_some_iff.mp hn
    exact hf m (h i m hm)
  · exact h i n hn

/-- So does a new node that lies in the source. -/
private theorem push (h : d.LiesIn source) {n : Node} (hn : n.location.LiesIn source) :
    (d.push n).LiesIn source := by
  intro i m hm
  rw [get?_push] at hm
  split at hm
  · cases hm
    exact hn
  · exact h i m hm

/-- So does giving it its place. -/
private theorem adopt (h : d.LiesIn source) (p : Nat) {n : Node} (hn : n.location.LiesIn source) :
    (d.adopt p n).LiesIn source := by
  have hpush := h.push hn
  have hchild : ((d.push n).modify d.size fun m => { m with parent := some p }).LiesIn source :=
    hpush.modify _ fun _ hlies => hlies
  exact hchild.modify _ fun _ hlies => hlies

/-- The nodes of the tree and the node beside it. -/
private theorem showing_iff {new : Option Node} :
    (d.showing new).LiesIn source ↔ d.LiesIn source ∧ ∀ n, new = some n →
    n.location.LiesIn source := by
  cases new with
  | none =>
    show d.LiesIn source ↔ _
    simp
  | some n =>
    constructor
    · intro h
      refine ⟨fun i m hm => h i m ?_, ?_⟩
      · exact (get?_push_of_lt (lt_size_of_get? hm)).trans hm
      · rintro _ ⟨⟩
        exact h d.size n (by rw [Document.showing, get?_push, if_pos rfl])
    · rintro ⟨h, hn⟩
      exact h.push (hn n rfl)

/-- The end of the document changes no place. -/
private theorem ended (h : d.LiesIn source) : d.ended.LiesIn source :=
  h.modify _ fun _ hlies => hlies

end Document.LiesIn

section LiesIn

variable {source : List Char} {x y : Progress} {ms : List Moment}

/-- If the nodes lie in the source, so does what an advance tells, and so do the nodes after it. -/
private theorem Advance.liesIn (h : Advance source x ms y) (hx : x.stage.shown.LiesIn source) :
    (∀ m ∈ ms, m.event.LiesIn source) ∧ y.stage.shown.LiesIn source := by
  obtain ⟨hd, hnew⟩ := Document.LiesIn.showing_iff.mp hx
  cases h with
  | remark he hp hk hb =>
    refine ⟨fun m hm => ?_, hx⟩
    rw [List.mem_singleton.mp hm]
    exact hp hd
  | store a hp hk =>
    refine ⟨fun m hm => ?_, hd.modify _ fun _ hlies => hlies⟩
    rw [List.mem_singleton.mp hm]
    exact hp
  | widen l selfClosed hp hk => exact ⟨by simp, hd.modify _ fun _ hlies => hlies.extendTo hp⟩
  | text content location foreign hp hk hsize => exact ⟨by simp, hd.adopt _ hp⟩
  | announce tag location foreign void hp => exact ⟨by simp, hd.push hp⟩
  | close location stop hn hp hk =>
    refine ⟨fun m hm => ?_,
      Document.LiesIn.showing_iff.mpr ⟨hd.modify _ fun _ hlies => hlies, hnew⟩⟩
    simp only [List.mem_cons, List.not_mem_nil, or_false] at hm
    obtain rfl | rfl := hm <;> exact hp hd
  | place hk hsize =>
    have hn := hnew _ rfl
    refine ⟨fun m hm => ?_, hd.adopt _ hn⟩
    rw [List.mem_singleton.mp hm]
    exact hn

/-- All that a course shows lies in the source, advance by advance. -/
private theorem Course.liesIn (h : Course source x ms y) (hx : x.stage.shown.LiesIn source) :
    (∀ m ∈ ms, m.event.LiesIn source ∧ m.document.LiesIn source) ∧ y.stage.shown.LiesIn source := by
  induction h with
  | done x => exact ⟨by simp, hx⟩
  | move first _ ih =>
    obtain ⟨hevents, hy⟩ := first.liesIn hx
    obtain ⟨hlater, hz⟩ := ih hy
    refine ⟨fun m hm => ?_, hz⟩
    cases List.mem_append.mp hm with
    | inl hm =>
      refine ⟨hevents m hm, ?_⟩
      obtain heq | heq := first.move.shown_of_mem hm
      · rw [heq]; exact hx
      · rw [heq]; exact hy
    | inr hm => exact hlater m hm

end LiesIn

/-- All that is told in the making of the document of a source lies in the source. -/
theorem record_liesIn {source : String} (h : (tokenize source).failure = none) (v : Vocabulary)
    {m : Moment}
    (hm : m ∈ (Construction.record v (tokenize source).tokens (byteLength source.toList)).2) :
    m.event.LiesIn source.toList ∧ m.document.LiesIn source.toList := by
  obtain ⟨ms, d, k, -, hcourse, hrecord⟩ := record_course h v
  have hstart := Document.LiesIn.ofLength source.toList
  obtain ⟨hmoments, hend⟩ := hcourse.liesIn hstart
  rw [hrecord] at hm
  simp only [List.cons_append, List.mem_cons, List.mem_append, List.not_mem_nil, or_false] at hm
  obtain rfl | hm | rfl := hm
  · exact ⟨trivial, hstart⟩
  · exact hmoments m hm
  · exact ⟨trivial, Document.LiesIn.ended hend⟩

/-! ## Places in start tags -/

/-- A new node leaves the others where they are. -/
private theorem Document.location_adopt {d : Document} {i : Nat} {n : Node} (hn : d.get? i = some n)
    (p : Nat) (new : Node) : ∃ n', (d.adopt p new).get? i = some n' ∧ n'.location = n.location := by
  by_cases hp : i = p
  · subst hp
    exact ⟨_, get?_adopt_parent hn new, rfl⟩
  · exact ⟨n, (get?_adopt_of_ne hp (Nat.ne_of_lt (lt_size_of_get? hn)) new).trans hn, rfl⟩

/-- A slice that is extended goes at least that far. -/
private theorem Location.le_stop_extendTo (l other : Location) :
    other.stop ≤ (l.extendTo other).stop := by
  unfold Location.extendTo
  split
  · show other.stop ≤ l.offset + (other.stop - l.offset)
    omega
  · show other.stop ≤ l.offset + l.size
    omega

/-- The byte lies in the start tag of the node, which is not the root. -/
def Document.TagCovers (d : Document) (i : NodeId) (offset : Nat) : Prop :=
  i ≠ rootId ∧ ∃ n, d.get? i = some n ∧ n.location.offset ≤ offset ∧ offset < n.location.stop

/-- The byte lies in the start tag of the node, or will when the tag has ended: it has been reached
since the tag began. -/
def Progress.Covers (x : Progress) (i : NodeId) (offset : Nat) : Prop :=
  i ≠ rootId ∧ ∃ n, x.stage.document.get? i = some n ∧ n.location.offset ≤ offset ∧
    if x.tag = some i then offset < x.reached else offset < n.location.stop

/-- Every node of the first document starts at the same byte in the second. -/
def Document.KeepsStarts (d d' : Document) : Prop :=
  ∀ (i : Nat) n, d.get? i = some n → ∃ n', d'.get? i = some n' ∧
    n'.location.offset = n.location.offset

namespace Document.KeepsStarts

variable {d d' d'' : Document}

/-- A document that does not change keeps the starts of its nodes. -/
private theorem refl (d : Document) : d.KeepsStarts d := fun _ n hn => ⟨n, hn, rfl⟩

/-- Two changes one after the other keep the starts if each of them does. -/
private theorem trans (h : d.KeepsStarts d') (h' : d'.KeepsStarts d'') : d.KeepsStarts d'' := by
  intro i n hn
  obtain ⟨n', hn', heq⟩ := h i n hn
  obtain ⟨n'', hn'', heq'⟩ := h' i n' hn'
  exact ⟨n'', hn'', heq'.trans heq⟩

/-- So does a change of one node that keeps its start. -/
private theorem modify (d : Document) (j : Nat) {f : Node → Node}
    (hf : ∀ n, (f n).location.offset = n.location.offset) : d.KeepsStarts (d.modify j f) := by
  intro i n hn
  rw [get?_modify, hn]
  split
  · exact ⟨f n, rfl, hf n⟩
  · exact ⟨n, rfl, rfl⟩

/-- So does a new node. -/
private theorem push (d : Document) (n : Node) : d.KeepsStarts (d.push n) := by
  intro i m hm
  exact ⟨m, (get?_push_of_lt (lt_size_of_get? hm)).trans hm, rfl⟩

/-- A node beside the tree that gets its place. -/
private theorem place (d : Document) (p : Nat) (n : Node) :
    (d.push n).KeepsStarts (d.adopt p n) := by
  have hchild :
      (d.push n).KeepsStarts ((d.push n).modify d.size fun m => { m with parent := some p }) :=
    modify _ _ fun _ => rfl
  exact hchild.trans (modify _ _ fun _ => rfl)

end Document.KeepsStarts

section TagsIn

variable {source : List Char} {x y z : Progress} {ms : List Moment} {i offset : Nat}

/-- No move changes where a node starts that observers have seen. -/
private theorem Move.keepsStarts {s t : Stage} (h : Move s ms t) (hs : s.Sound) :
    s.shown.KeepsStarts t.shown := by
  cases h with
  | remark he => exact .refl _
  | store a => exact .modify _ _ fun _ => rfl
  | widen l selfClosed => exact .modify _ _ fun n => n.location.offset_extendTo l
  | text content location foreign => exact (Document.KeepsStarts.push _ _).trans (.place _ _ _)
  | announce tag location foreign void => exact .push _ _
  | @close d id ids new kind location stop hk =>
    have hclose : (d.close id kind stop).showing new = (d.showing new).close id kind stop := by
      cases new with
      | none => rfl
      | some n => exact (Document.close_push (hs.lt_size (List.mem_cons_self ..)) n kind stop).symm
    show (d.showing new).KeepsStarts ((d.close id kind stop).showing new)
    rw [hclose]
    exact .modify _ _ fun _ => rfl
  | place => exact .place _ _ _

/-- The nodes that observers see have their own numbers, and none of the elements is the root. -/
private theorem Stage.shown_element {s : Stage} (hs : s.Sound) (hg : s.Grown) {n : Node}
    (hn : s.shown.get? i = some n) : n.id = i ∧ (n.isElement = true → i ≠ rootId) := by
  obtain ⟨d, ids, new⟩ := s
  -- the root is no element
  have htree : ∀ m, d.get? i = some m → m.id = i ∧ (m.isElement = true → i ≠ rootId) := by
    intro m hm
    refine ⟨hg.tree.id_eq hm, ?_⟩
    rintro helement rfl
    obtain ⟨r, hr, hkind, -⟩ := hs.root_open
    rw [hm] at hr
    cases hr
    simp [Node.isElement, hkind] at helement
  cases new with
  | none => exact htree n hn
  | some new =>
    -- the node that is shown but not placed yet has the next number
    simp only [Stage.shown, Document.showing, Document.get?_push] at hn
    split at hn
    · rename_i hi
      cases hn
      exact ⟨hs.upcoming_id.trans hi.symm, fun _ => hi ▸ Nat.ne_of_gt d.size_pos⟩
    · exact htree n hn

/-- No advance loses a byte of a start tag. -/
private theorem Advance.covers (h : Advance source x ms y) (hs : x.stage.Sound)
    (hx : x.Covers i offset) :
    y.Covers i offset := by
  obtain ⟨hroot, n, hn, hstart, hstop⟩ := hx
  cases h with
  | @remark d ids tag k k' e he hp hk hb =>
    refine ⟨hroot, n, hn, hstart, ?_⟩
    -- inside the start tag of the node more has been read, and otherwise nothing has changed
    show if tag = some i then offset < k' else offset < n.location.stop
    split
    · rename_i htag
      rw [if_pos htag] at hstop
      exact Nat.lt_of_lt_of_le hstop hk
    · rename_i htag
      rwa [if_neg htag] at hstop
  | @store d id ids k k' a hp hk =>
    have hle : k ≤ k' := Nat.le_trans hk.1.1 (Nat.le_of_lt hk.1.2)
    have hlater : if some id = some i then offset < k' else offset < n.location.stop := by
      split
      · rename_i hid
        rw [if_pos hid] at hstop
        exact Nat.lt_of_lt_of_le hstop hle
      · rename_i hid
        rwa [if_neg hid] at hstop
    refine ⟨hroot, ?_⟩
    simp only [Document.setAttribute, Document.get?_modify, hn]
    split
    · exact ⟨_, rfl, hstart, hlater⟩
    · exact ⟨_, rfl, hstart, hlater⟩
  | @widen d id ids k l selfClosed hp hk =>
    refine ⟨hroot, ?_⟩
    simp only [Document.widen, Document.get?_modify, hn]
    by_cases hid : id = i
    · -- the tag goes up to the byte that is reached, so nothing of it was missing
      rw [if_pos hid]
      rw [if_pos (congrArg some hid)] at hstop
      refine ⟨_, rfl, ?_, ?_⟩
      · rwa [Location.offset_extendTo]
      · have hend := n.location.le_stop_extendTo l
        show offset < (n.location.extendTo l).stop
        exact Nat.lt_of_lt_of_le hstop (Nat.le_trans hk hend)
    · rw [if_neg hid]
      rw [if_neg (mt Option.some.inj hid)] at hstop
      exact ⟨n, rfl, hstart, hstop⟩
  | @text d ids k content location foreign hp hk hsize =>
    obtain ⟨n', hn', hlocation⟩ := Document.location_adopt hn (ids.headD rootId)
      (.newText d.size content location foreign)
    exact ⟨hroot, n', hn', hlocation ▸ hstart, hlocation ▸ hstop⟩
  | announce tag location foreign void hp => exact ⟨hroot, n, hn, hstart, hstop⟩
  | @close d id ids new kind k location stop hk hp hle =>
    refine ⟨hroot, ?_⟩
    simp only [Document.get?_close, hn]
    split
    · exact ⟨_, rfl, hstart, hstop⟩
    · exact ⟨_, rfl, hstart, hstop⟩
  | @place d ids new k hk hsize =>
    obtain ⟨n', hn', hlocation⟩ := Document.location_adopt hn (ids.headD rootId) new
    refine ⟨hroot, n', hn', hlocation ▸ hstart, ?_⟩
    -- the start tag that is being read now is that of a new node
    have hne : new.id ≠ i := by
      rw [hs.upcoming_id]
      exact Nat.ne_of_gt (Document.lt_size_of_get? hn)
    show if some new.id = some i then _ else _
    rw [if_neg (mt Option.some.inj hne), hlocation]
    exact hstop

end TagsIn

/-- What an event tells of an element lies in the start tag that the element has in the finished
document: an element that is opened or complete at its start, an attribute at its key and at its
value. -/
def Event.TagsIn (final d : Document) : Event → Prop
  | .tagOpen i location => final.TagCovers i location.offset
  | .tagClose i _ _ _ | .elementReady i _ => final.TagCovers i (d.node i).location.offset
  | .attr i a => final.TagCovers i a.location.offset ∧
      ∀ value, a.value = some value → final.TagCovers i value.location.offset
  | _ => True

/-- So does what a moment tells: its event, and each element of its document at the start. -/
structure Moment.TagsIn (final : Document) (m : Moment) : Prop where
  event : m.event.TagsIn final m.document
  element : ∀ (i : Nat) n, m.document.get? i = some n → n.isElement = true →
    n.id = i ∧ final.TagCovers i n.location.offset

/-- The document may be the finished one of a progress: nodes start where observers have seen them,
bytes of start tags lie in them, and start tags are not empty. -/
structure Progress.LeadsTo (final : Document) (x : Progress) : Prop where
  keepsStarts : x.stage.shown.KeepsStarts final
  covers : ∀ i offset, x.Covers i offset → final.TagCovers i offset
  nonempty : ∀ (i : Nat) n, i ≠ rootId → final.get? i = some n → n.location.offset < n.location.stop

namespace Progress.LeadsTo

variable {source : List Char} {x y : Progress} {ms : List Moment} {final : Document}
  {i : Nat} {n : Node}

/-- What was shown starts in its start tag. -/
private theorem tagCovers (h : x.LeadsTo final) (hn : x.stage.shown.get? i = some n)
    (hroot : i ≠ rootId) :
    final.TagCovers i n.location.offset := by
  obtain ⟨n', hn', hstart⟩ := h.keepsStarts i n hn
  have hnonempty := h.nonempty i n' hroot hn'
  exact ⟨hroot, n', hn', Nat.le_of_eq hstart, hstart ▸ hnonempty⟩

/-- What is ahead after an advance is ahead before it. -/
private theorem of_advance (ha : Advance source x ms y) (hs : x.stage.Sound) (h : y.LeadsTo final) :
    x.LeadsTo final where
  keepsStarts := (ha.move.keepsStarts hs).trans h.keepsStarts
  covers i offset hx := h.covers i offset (ha.covers hs hx)
  nonempty := h.nonempty

/-- So it is for a course, from its end to its start. -/
private theorem of_course (hc : Course source x ms y) (hs : x.stage.Sound) (h : y.LeadsTo final) :
    x.LeadsTo final := by
  induction hc with
  | done x => exact h
  | move first _ ih => exact (ih (hs.move first.move) h).of_advance first hs

/-- The event of each moment of an advance tells the right places. -/
private theorem event_tagsIn (ha : Advance source x ms y) (hs : x.stage.Sound) (hx : x.Nests)
    (h : y.LeadsTo final) {m : Moment} (hm : m ∈ ms) : m.event.TagsIn final m.document := by
  cases ha with
  | @remark d ids tag k k' e he hp hk hb =>
    rw [List.mem_singleton.mp hm]
    cases e with
    | parseError | doctype | invalidDirective | directive => trivial
    | domLoad | tagOpen | tagClose | elementReady | attr | domReady => exact he.elim
  | @store d id ids k k' a hp hk =>
    rw [List.mem_singleton.mp hm]
    have hroot : id ≠ rootId := hs.ne_root (List.mem_cons_self ..)
    obtain ⟨n, hn⟩ := Document.exists_get?_of_lt (hs.lt_size (List.mem_cons_self ..))
    -- the attribute comes after what was known of the element, and it has been reached
    have hextends := hx.nests.extends_to hn hroot
    have hcovers : ∀ offset, k ≤ offset → offset < k' → final.TagCovers id offset := by
      intro offset hfrom hto
      apply h.covers
      refine ⟨hroot, { n with attributes := Node.storeAttribute a n.attributes }, ?_, ?_, ?_⟩
      · show (d.modify id _).get? id = _
        rw [Document.get?_modify_self, hn]
        rfl
      · show n.location.offset ≤ offset
        have hle := hextends.stop_le
        have hlt := hextends.nonempty
        simp only at hle
        omega
      · rwa [if_pos rfl]
    exact ⟨hcovers _ hk.1.1 hk.1.2, fun value hvalue =>
      hcovers _ (hk.2 value hvalue).1 (hk.2 value hvalue).2⟩
  | widen | text | announce => cases hm
  | @close d id ids new kind k location stop himplicit hp hk =>
    have hroot : id ≠ rootId := hs.ne_root (List.mem_cons_self ..)
    have hlt : id < (d.close id kind stop).size := by
      rw [Document.size_close]
      exact hs.lt_size (List.mem_cons_self ..)
    obtain ⟨n, hn⟩ := Document.exists_get?_of_lt hlt
    have hshown : ((d.close id kind stop).showing new).get? id = some n := by
      cases new with
      | none => exact hn
      | some _ => exact (Document.get?_push_of_lt hlt).trans hn
    have hcovers := h.tagCovers hshown hroot
    simp only [List.mem_cons, List.not_mem_nil, or_false] at hm
    obtain rfl | rfl := hm
    · show final.TagCovers id (Document.node _ id).location.offset
      rwa [Document.node_of_get? hshown]
    · show final.TagCovers id (Document.node _ id).location.offset
      rwa [Document.node_of_get? hshown]
  | @place d ids n k hk hsize =>
    rw [List.mem_singleton.mp hm]
    have hid : n.id = d.size := hs.upcoming_id
    have hroot : d.size ≠ rootId := Nat.ne_of_gt d.size_pos
    have hcovers := h.tagCovers (Document.get?_adopt_new hs.head_lt_size n) hroot
    show final.TagCovers n.id n.location.offset
    rw [hid]
    exact hcovers

/-- All moments of a course tell the right places. -/
private theorem tagsIn (hc : Course source x ms y) (hs : x.stage.Sound) (hg : x.stage.Grown)
    (he : x.stage.EndsKnown) (hx : x.Nests) (h : y.LeadsTo final) : ∀ m ∈ ms, m.TagsIn final := by
  induction hc with
  | done x => simp
  | @move x y z ms later first rest ih =>
    have hs' := hs.move first.move
    have hg' := hg.move first.move hs
    have hy : y.LeadsTo final := .of_course rest hs' h
    -- a moment shows the document before the move or the one after it
    intro m hm
    cases List.mem_append.mp hm with
    | inr hm => exact ih hs' hg' (he.move first.move hs) (hx.advance first hs hg he) h m hm
    | inl hm =>
      refine ⟨event_tagsIn first hs hx hy hm, fun i n hn helement => ?_⟩
      obtain heq | heq := first.move.shown_of_mem hm
      · rw [heq] at hn
        obtain ⟨hid, hroot⟩ := Stage.shown_element hs hg hn
        exact ⟨hid, (hy.of_advance first hs).tagCovers hn (hroot helement)⟩
      · rw [heq] at hn
        obtain ⟨hid, hroot⟩ := Stage.shown_element hs' hg' hn
        exact ⟨hid, hy.tagCovers hn (hroot helement)⟩

end Progress.LeadsTo

/-- In the making of a document all that is told of elements and attributes lies in the start tags
of the finished document. -/
theorem Course.tagsIn {source : List Char} {length k : Nat} {ms : List Moment} {d : Document}
    (h : Course source (.ofLength length) ms ⟨⟨d, [], none⟩, none, k⟩) (hk : k ≤ length) :
    ∀ m ∈ (⟨.domLoad, .ofLength length⟩ :: ms ++ [⟨.domReady, d.ended⟩] : List Moment),
    m.TagsIn d.ended := by
  have hsound := Stage.Sound.ofLength length
  have hgrown := Stage.Grown.ofLength length
  obtain ⟨htree, hlaminar⟩ := h.isLaminar hk
  -- ending the document touches the root only
  have hleads : (Progress.mk ⟨d, [], none⟩ none k).LeadsTo d.ended := by
    refine ⟨.modify _ _ fun _ => rfl, ?_, ?_⟩
    · rintro i offset ⟨hroot, n, hn, hstart, hstop⟩
      have hkept : d.ended.get? i = d.get? i := Document.get?_modify_of_ne (Ne.symm hroot) _
      exact ⟨hroot, n, hkept.trans hn, hstart, hstop⟩
    · intro i n hroot hn
      exact hlaminar.nonempty hn fun hi => absurd hi hroot
  have hstart := Progress.LeadsTo.of_course h hsound hleads
  have hend : (Stage.mk d [] none).Sound := hsound.run h.run
  have hend' : (Stage.mk d [] none).Grown := (hgrown.run h.run hsound).1
  intro m hm
  simp only [List.cons_append, List.mem_cons, List.mem_append, List.not_mem_nil, or_false] at hm
  obtain rfl | hm | rfl := hm
  · refine ⟨trivial, fun i n hn helement => ?_⟩
    obtain ⟨hid, hroot⟩ := Stage.shown_element hsound hgrown hn
    exact ⟨hid, hstart.tagCovers hn (hroot helement)⟩
  · exact Progress.LeadsTo.tagsIn h hsound hgrown (.ofLength length) (.ofLength length) hleads m hm
  · refine ⟨trivial, fun i n hn helement => ?_⟩
    obtain ⟨y, hy, rfl⟩ := Document.exists_of_get?_ended hn
    obtain ⟨hid, hroot⟩ := Stage.shown_element hend hend' hy
    have hcovers := hleads.tagCovers hy (hroot helement)
    exact ⟨hid, hcovers⟩

end HtmlLint
