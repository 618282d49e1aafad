import HtmlLint.Proofs.Construction.Growth
import HtmlLint.Proofs.Construction.Run
import HtmlLint.Proofs.Document.Directive
import HtmlLint.Proofs.Token.Place

/-!
# The course of a construction through its source

`Move` says what a construction can do, but not where in the source it does it.  For the tokens of a
source more is known: they stand in the source one after the other, so that each move concerns a
place that no earlier move has gone beyond.  `Advance` is `Move` with this knowledge, and `Course`
chains it; forgetting it gives back the run (`Course.run`).  A `Progress` is a stage together with
the start tag that is being read, if there is one, and the byte that the construction has reached:
all that is known of the nodes lies before it.

`record_course` says that the making of the document of a source that can be cut into tokens is such
a course.  The step from token to token is `Construction.Paced.step`.  Inside a tag the construction
lags behind the tokens: an attribute waits for its value, and an end tag closes elements where it
began.  `Construction.Paced` has two bytes for this, the one that the construction has reached and
the one up to which the tokens were taken in.  All else that is known about bytes follows from the
course.
-/

namespace HtmlLint

/-! ## Places of what is built -/

/-- All nodes lie in the source. -/
def Document.LiesIn (source : List Char) (d : Document) : Prop :=
  ∀ (i : Nat) n, d.get? i = some n → n.location.LiesIn source

/-- The attribute lies in the source, its value included. -/
def Attribute.LiesIn (source : List Char) (a : Attribute) : Prop :=
  a.location.LiesIn source ∧ ∀ value, a.value = some value → value.location.LiesIn source

/-- The attribute starts between two bytes, and so does its value. -/
def Attribute.StartsBetween (k k' : Nat) (a : Attribute) : Prop :=
  (k ≤ a.location.offset ∧ a.location.offset < k') ∧
    ∀ value, a.value = some value → k ≤ value.location.offset ∧ value.location.offset < k'

/-- A directive stands between two bytes, and names its rules before it stops.  Other events stand
anywhere. -/
def Event.StandsBetween (k k' : Nat) : Event → Prop
  | .directive _ rules _ location =>
    k ≤ location.offset ∧ location.stop ≤ k' ∧ ∀ r ∈ rules, r.location.offset < location.stop
  | _ => True

/-- All places that the event tells lie in the source. -/
def Event.LiesIn (source : List Char) : Event → Prop
  | .tagOpen _ location | .tagClose _ _ _ location | .elementReady _ location | .doctype _ location
  | .invalidDirective _ location | .parseError _ _ location => location.LiesIn source
  | .attr _ a => a.LiesIn source
  | .directive _ rules _ location => location.LiesIn source ∧ ∀ r ∈ rules, r.location.LiesIn source
  | .domLoad | .domReady => True

/-- What a comment says lies in the source if the comment does. -/
private theorem Directive.liesIn_of_event? {source : List Char} {t : Token} (ht : t.StandsIn source)
    {parent : NodeId} {e : Event} (h : Directive.event? t parent = some e) : e.LiesIn source := by
  have hremark := Directive.isRemark_of_event? h
  cases e with
  | directive action rules p location =>
    obtain ⟨rfl, -⟩ := Directive.event?_eq_directive h
    exact ⟨ht.liesIn, fun r hr => ((Directive.standsIn_of_event? h hr).ofToken ht).liesIn⟩
  | invalidDirective fault location =>
    -- whatever is wrong with the directive, the place is that of the comment
    have hlocation : location = t.location := by
      simp only [Directive.event?] at h
      split at h
      · split at h
        · cases h; rfl
        · split at h <;> cases h
          rfl
      · cases h
    rw [hlocation]
    exact ht.liesIn
  | parseError | doctype =>
    simp only [Directive.event?] at h
    split at h
    · split at h
      · cases h
      · split at h <;> cases h
    · cases h
  | domLoad | tagOpen | tagClose | elementReady | attr | domReady => exact hremark.elim

/-- A directive stands where its comment does. -/
private theorem Directive.standsBetween_of_event? {source : List Char} {t : Token}
    (ht : t.StandsIn source) {parent : NodeId} {e : Event} (h : Directive.event? t parent = some e)
    {k : Nat} (hk : k ≤ t.location.offset) : e.StandsBetween k t.location.stop := by
  have hsize : t.location.size = byteLength t.text.toList := by
    obtain ⟨before, after, -, hlocation⟩ := ht
    rw [hlocation]
    rfl
  have hremark := Directive.isRemark_of_event? h
  cases e with
  | directive action rules p location =>
    obtain ⟨rfl, -⟩ := Directive.event?_eq_directive h
    exact ⟨hk, Nat.le_refl _, fun r hr => Directive.rules_inside hsize h hr⟩
  | parseError | doctype | invalidDirective => trivial
  | domLoad | tagOpen | tagClose | elementReady | attr | domReady => exact hremark.elim

/-- The slice lies in the source between two bytes and is not empty. -/
structure Location.LiesBetween (source : List Char) (k k' : Nat) (l : Location) : Prop where
  liesIn : l.LiesIn source
  le_offset : k ≤ l.offset
  size_pos : 0 < l.size
  stop_le : l.stop ≤ k'

/-- What lies before a byte lies before every later one. -/
private theorem Location.LiesBetween.mono {source : List Char} {k k' k'' : Nat} {l : Location}
    (h : l.LiesBetween source k k') (hk : k' ≤ k'') : l.LiesBetween source k k'' :=
  ⟨h.liesIn, h.le_offset, h.size_pos, Nat.le_trans h.stop_le hk⟩

/-- A slice that is not empty starts before the byte that it lies before. -/
private theorem Location.LiesBetween.offset_lt {source : List Char} {k k' : Nat} {l : Location}
    (h : l.LiesBetween source k k') : l.offset < k' := by
  have hsize := h.size_pos
  have hstop := h.stop_le
  unfold Location.stop at hstop
  omega

/-! ## The tokens to come -/

/-- The tokens tile the source from byte `k` on, or from a later one. -/
def Token.TileFrom (whole : Prop) (source : List Char) (inTag : Bool) (k : Nat) (ts : List Token) :
    Prop :=
  ∃ before cs, source = before ++ cs ∧ k ≤ byteLength before ∧
    Tiles whole inTag (Position.start.advance before) cs ts

/-- The tokens of a source tile it from its start. -/
theorem tokenize_tileFrom (source : String) :
    Token.TileFrom ((tokenize source).failure = none) source.toList false 0
      (tokenize source).tokens :=
  ⟨[], source.toList, rfl, Nat.le_refl 0, Scanner.run_tiles (s := .ofSource source.toList) trivial⟩

namespace Token.TileFrom

variable {whole : Prop} {source : List Char} {inTag : Bool} {k : Nat} {t : Token}
  {ts rest : List Token}

/-- The tokens that are still to come start within the source. -/
private theorem le_byteLength (h : TileFrom whole source inTag k ts) : k ≤ byteLength source := by
  obtain ⟨before, cs, rfl, hk, -⟩ := h
  rw [byteLength_append]
  exact Nat.le_add_right_of_le hk

/-- Where the whole source is tiled, the last token stands outside of tags or ends one. -/
private theorem inTag_eq_false (h : TileFrom whole source inTag k []) (hwhole : whole) :
    inTag = false := by
  obtain ⟨before, cs, -, -, htiles⟩ := h
  exact (htiles hwhole).1

/-- The first token stands after byte `k`, inside or outside of a tag as it should, and the others
after it. -/
theorem cons (h : TileFrom whole source inTag k (t :: ts)) :
    t.kind.inTag = inTag ∧ t.StandsIn source ∧ t.location.LiesBetween source k t.location.stop ∧
      TileFrom whole source t.kind.leadsIntoTag t.location.stop ts := by
  obtain ⟨before, cs, hsource, hk, htiles⟩ := h
  have hstands : t.StandsIn source := htiles.standsIn hsource t (List.mem_cons_self ..)
  obtain ⟨gap, later, hcs, -, hne, hin, hlocation, hlater⟩ := htiles
  rw [← Position.advance_append] at hlocation hlater
  -- the place of the token is where the text before it and the gap end
  have hoffset : t.location.offset = byteLength before + byteLength gap := by
    rw [hlocation, ← byteLength_append]
    show (Position.start.advance (before ++ gap)).offset = _
    rw [Position.offset_advance]
    exact Nat.zero_add _
  have hsize : t.location.size = byteLength t.text.toList := by rw [hlocation]; rfl
  have hpos : 0 < t.location.size := by
    obtain ⟨a, cs', htext⟩ := List.exists_cons_of_ne_nil hne
    rw [hsize, htext, byteLength_cons]
    exact Nat.add_pos_left a.utf8Size_pos _
  refine ⟨hin, hstands, ⟨hstands.liesIn, by omega, hpos, Nat.le_refl _⟩,
    before ++ (gap ++ t.text.toList), later, by simp [hsource, hcs], ?_, hlater⟩
  rw [byteLength_append, byteLength_append, Location.stop, hoffset, hsize]
  omega

/-- Every token that is still to come stands after byte `k`. -/
theorem le_offset (h : TileFrom whole source inTag k (ts ++ t :: rest)) :
    k ≤ t.location.offset := by
  induction ts generalizing inTag k with
  | nil => exact h.cons.2.2.1.le_offset
  | cons u ts ih =>
    obtain ⟨-, -, hu, hlater⟩ := h.cons
    exact Nat.le_trans hu.le_offset (Nat.le_trans (Nat.le_add_right _ _) (ih hlater))

end Token.TileFrom

/-! ## Moves in time -/

/-- A stage, the element whose start tag is being read, and the byte before which all lies that is
known of the nodes. -/
structure Progress where
  stage : Stage
  tag : Option NodeId
  reached : Nat

/-- The progress of a construction of which nothing has been read. -/
def Progress.ofLength (sourceLength : Nat) : Progress :=
  ⟨.ofLength sourceLength, none, 0⟩

/-- One move of a construction that goes through the source from its start to its end.  What the
move is about lies in the source, if the nodes do. -/
inductive Advance (source : List Char) : Progress → List Moment → Progress → Prop where
  /-- something is said about the source -/
  | remark {d : Document} {ids : List NodeId} {tag : Option NodeId} {k k' : Nat} {e : Event}
      (he : e.IsRemark (ids.headD rootId)) (hp : d.LiesIn source → e.LiesIn source) (hk : k ≤ k')
      (hb : e.StandsBetween k k') :
      Advance source ⟨⟨d, ids, none⟩, tag, k⟩ [⟨e, d⟩] ⟨⟨d, ids, none⟩, tag, k'⟩
  /-- an attribute of the start tag that is being read -/
  | store {d : Document} {id : NodeId} {ids : List NodeId} {k k' : Nat} (a : Attribute)
      (hp : a.LiesIn source) (hk : a.StartsBetween k k') :
      Advance source ⟨⟨d, id :: ids, none⟩, some id, k⟩ [⟨.attr id a, d⟩]
        ⟨⟨d.setAttribute id a, id :: ids, none⟩, some id, k'⟩
  /-- the end of that start tag -/
  | widen {d : Document} {id : NodeId} {ids : List NodeId} {k : Nat} (l : Location)
      (selfClosed : Bool) (hp : l.LiesIn source) (hk : k ≤ l.stop) :
      Advance source ⟨⟨d, id :: ids, none⟩, some id, k⟩ []
        ⟨⟨d.widen id l selfClosed, id :: ids, none⟩, none, l.stop⟩
  /-- a run of text -/
  | text {d : Document} {ids : List NodeId} {k : Nat} (content : String) (location : Location)
      (foreign : Bool) (hp : location.LiesIn source) (hk : k ≤ location.offset)
      (hsize : 0 < location.size) :
      Advance source ⟨⟨d, ids, none⟩, none, k⟩ []
        ⟨⟨d.adopt (ids.headD rootId) (.newText d.size content location foreign), ids, none⟩, none,
          location.stop⟩
  /-- an element that is made and has no place yet -/
  | announce {d : Document} {ids : List NodeId} {k : Nat} (tag : String) (location : Location)
      (foreign void : Bool) (hp : location.LiesIn source) :
      Advance source ⟨⟨d, ids, none⟩, none, k⟩ []
        ⟨⟨d, ids, some (.newElement d.size tag location foreign void)⟩, none, k⟩
  /-- the current element is closed -/
  | close {d : Document} {id : NodeId} {ids : List NodeId} {new : Option Node}
      {kind : CloseKind} {k : Nat}
      (location : Location) (stop : Nat) (hn : new.isSome → kind = .implicit)
      (hp : d.LiesIn source → location.LiesIn source) (hk : k ≤ stop) :
      Advance source ⟨⟨d, id :: ids, new⟩, none, k⟩
        [⟨.tagClose id (new.map Node.id) kind location, (d.close id kind stop).showing new⟩,
          ⟨.elementReady id location, (d.close id kind stop).showing new⟩]
        ⟨⟨d.close id kind stop, ids, new⟩, none, stop⟩
  /-- the upcoming element gets its place, and its start tag is being read -/
  | place {d : Document} {ids : List NodeId} {n : Node} {k : Nat} (hk : k ≤ n.location.offset)
      (hsize : 0 < n.location.size) :
      Advance source ⟨⟨d, ids, some n⟩, none, k⟩
        [⟨.tagOpen n.id n.location, d.adopt (ids.headD rootId) n⟩]
        ⟨⟨d.adopt (ids.headD rootId) n, n.id :: ids, none⟩, some n.id, n.location.stop⟩

/-- Any number of such moves. -/
inductive Course (source : List Char) : Progress → List Moment → Progress → Prop where
  | done (x : Progress) : Course source x [] x
  | move {x y z : Progress} {ms later : List Moment} (first : Advance source x ms y)
      (rest : Course source y later z) : Course source x (ms ++ later) z

/-- Every advance is a move. -/
theorem Advance.move {source : List Char} {x y : Progress} {ms : List Moment}
    (h : Advance source x ms y) :
    Move x.stage ms y.stage := by
  cases h with
  | remark he hp hk hb => exact .remark he
  | store a hp hk => exact .store a
  | widen l selfClosed hp hk => exact .widen l selfClosed
  | text content location foreign hp hk hsize => exact .text content location foreign
  | announce tag location foreign void hp => exact .announce tag location foreign void
  | close location stop hn hp hk => exact .close location stop hn
  | place hk hsize => exact .place

namespace Course

variable {source : List Char} {x y z : Progress} {ms later : List Moment}

/-- One advance is a course. -/
private theorem of_advance (h : Advance source x ms y) : Course source x ms y := by
  have := Course.move h (.done y)
  rwa [List.append_nil] at this

/-- A course may go on. -/
private theorem append (h : Course source x ms y) (h' : Course source y later z) :
    Course source x (ms ++ later) z := by
  induction h with
  | done x => exact h'
  | move first _ ih =>
    rw [List.append_assoc]
    exact .move first (ih h')

/-- Every course is a run. -/
theorem run (h : Course source x ms y) : Run x.stage ms y.stage := by
  induction h with
  | done x => exact .done _
  | move first _ ih => exact .move first.move ih

end Course

namespace Construction

variable {source : List Char} {v : Vocabulary} {c : Construction} {r k : Nat}

/-! ## Closing elements -/

/-- What a node that is there is closed with lies in the source. -/
private theorem liesIn_node_showing {d : Document} (hd : d.LiesIn source) {id : Nat}
    (hid : id < d.size) (new : Option Node) : ((d.showing new).node id).location.LiesIn source := by
  obtain ⟨n, hn⟩ := Document.exists_get?_of_lt hid
  rw [Document.node_of_get? ((Document.get?_showing_of_lt hid new).trans hn)]
  exact hd id n hn

/-- Closing the current element is a course that reaches the byte at which it is closed. -/
private theorem closeOne_course (source : List Char) (how : Closing) {d : Document}
    (new : Option Node) (left : List NodeId) {id : Nat} (hp : how.previous = new.map Node.id)
    (hid : id < d.size) (hn : new.isSome → how.error = none ∧ how.kind = .implicit)
    (hk : k ≤ how.stop) (hlies : d.LiesIn source → how.location.LiesIn source) :
    Course source ⟨⟨d, id :: left, new⟩, none, k⟩ (closeOne id how (d.showing new)).2
      ⟨⟨d.close id how.kind how.stop, left, new⟩, none, how.stop⟩ := by
  -- the node that is made but not placed yet stays last, past the closed one
  have hdoc : (d.showing new).close id how.kind how.stop =
      (d.close id how.kind how.stop).showing new :=
    (closeOne_run how new left hid hp hn).1
  have hclose : Course source ⟨⟨d, id :: left, new⟩, none, k⟩ _
      ⟨⟨d.close id how.kind how.stop, left, new⟩, none, how.stop⟩ :=
    .of_advance (.close how.location how.stop (fun h => (hn h).2) hlies hk)
  simp only [closeOne, hdoc, hp]
  -- an error is reported before the closing, and never while a new node waits
  cases he : how.error with
  | none => exact hclose
  | some e =>
    cases new with
    | some n => rw [(hn rfl).1] at he; cases he
    | none =>
      exact .append
        (.of_advance (.remark (by simp [Event.IsRemark]) hlies (Nat.le_refl _) trivial)) hclose

/-- Elements that are closed at one byte: the construction reaches that byte, or stays where it is
if there is none. -/
private theorem closeAll_course (source : List Char) (how : Node → Closing) {stop : Nat}
    (d : Document) (new : Option Node) (ids left : List NodeId) (hids : ∀ id ∈ ids, id < d.size)
    (hp : ∀ n, (how n).previous = new.map Node.id)
    (hn : new.isSome → ∀ n, (how n).error = none ∧ (how n).kind = .implicit)
    (hstop : ∀ n, (how n).stop = stop) (hk : k ≤ stop)
    (hlies : ∀ n, n.location.LiesIn source → (how n).location.LiesIn source) :
    ∃ d' k', (closeAll how ids (d.showing new)).1 = d'.showing new ∧ d'.size = d.size ∧ k' ≤ stop ∧
      Course source ⟨⟨d, ids ++ left, new⟩, none, k⟩ (closeAll how ids (d.showing new)).2
        ⟨⟨d', left, new⟩, none, k'⟩ := by
  -- every closing stops at the same byte, so the position stays at or before it all along
  induction ids generalizing d k with
  | nil => exact ⟨d, k, rfl, rfl, hk, .done _⟩
  | cons id ids ih =>
    have hid : id < d.size := hids id (List.mem_cons_self ..)
    have hfirst :=
      closeOne_course source (how ((d.showing new).node id)) new (ids ++ left) (hp _) hid
      (fun h => hn h _) (Nat.le_trans hk (Nat.le_of_eq (hstop _).symm))
      fun hd => hlies _ (liesIn_node_showing hd hid new)
    have hdoc := (closeOne_run (how ((d.showing new).node id)) new (ids ++ left) hid (hp _)
      fun h => hn h _).1
    have hsize : ∀ i ∈ ids, i < (d.close id (how ((d.showing new).node id)).kind
        (how ((d.showing new).node id)).stop).size := by
      intro i hi
      rw [Document.size_close]
      exact hids i (List.mem_cons_of_mem _ hi)
    obtain ⟨d', k', hd', hs', hk', hrest⟩ := ih _ hsize (Nat.le_of_eq (hstop _))
    simp only [closeAll, hdoc]
    exact ⟨d', k', hd', by rw [hs', Document.size_close], hk', hfirst.append hrest⟩

/-! ## One token -/

/-- The element whose start tag has not ended. -/
def startTag? (c : Construction) : Option NodeId :=
  match c.pending with
  | some (.opening id _) => some id
  | _ => none

/-- Where a construction stands that has reached a byte. -/
def progress (c : Construction) (reached : Nat) : Progress :=
  ⟨c.stage, c.startTag?, reached⟩

/-- Where a construction stands when the tokens up to byte `k` have been taken in and it has reached
byte `r`: the attribute or the end tag that waits lies between the two, and outside of tags nothing
waits. -/
structure Paced (source : List Char) (inTag : Bool) (r k : Nat) (c : Construction) : Prop where
  ready : c.Ready
  reached_le : r ≤ k
  waiting : ∀ id last, c.pending = some (.opening id (some last)) →
    last.location.LiesBetween source r k
  closing : ∀ name location, c.pending = some (.closing name location) →
    location.LiesBetween source r k
  pending_eq : inTag = false → c.pending = none

/-- Where nothing waits, all there is to know is how far the construction has come. -/
private theorem Paced.of_pending (h : c.Ready) (hp : c.pending = none) (hr : r ≤ k) (inTag : Bool) :
    c.Paced source inTag r k :=
  ⟨h, hr, by simp [hp], by simp [hp], fun _ => hp⟩

/-- What waits for an attribute is stored, and what has been read is reached. -/
private theorem Paced.storeLast {inTag : Bool} (h : c.Paced source inTag r k) (value : Option Token)
    {k' : Nat} (hk : k ≤ k') (hvalue : ∀ t, value = some t → t.location.LiesBetween source k k') :
    ∃ r', Course source (c.progress r) (c.storeLast value).2 ((c.storeLast value).1.progress r') ∧
      (c.storeLast value).1.Paced source inTag r' k' := by
  have hready := h.ready.storeLast value
  have hrk := h.reached_le
  -- where no attribute waits, nothing happens
  have hnothing : c.storeLast value = (c, []) →
      ∃ r', Course source (c.progress r) (c.storeLast value).2
      ((c.storeLast value).1.progress r') ∧ (c.storeLast value).1.Paced source inTag r' k' := by
    intro heq
    rw [heq]
    exact ⟨r, .done _, h.ready, Nat.le_trans hrk hk,
      fun id last hp => (h.waiting id last hp).mono hk,
      fun name location hp => (h.closing name location hp).mono hk, h.pending_eq⟩
  cases hp : c.pending with
  | none => exact hnothing (by simp only [Construction.storeLast, hp])
  | some tag =>
    cases tag with
    | closing name location => exact hnothing (by simp only [Construction.storeLast, hp])
    | opening id last =>
      cases last with
      | none => exact hnothing (by simp only [Construction.storeLast, hp])
      | some last =>
        have hlast := h.waiting id last hp
        obtain ⟨ids, hids⟩ := List.head?_eq_some_iff.mp (h.ready.pending_top id _ hp)
        simp only [Construction.storeLast, hp] at hready ⊢
        refine ⟨k', ?_, hready, Nat.le_refl _, by simp, by simp, ?_⟩
        · simp only [progress, stage, startTag?, hp, hids]
          refine .of_advance (.store _ ⟨hlast.liesIn, ?_⟩ ⟨⟨hlast.le_offset, ?_⟩, ?_⟩)
          · intro stored hstored
            obtain ⟨t, ht, rfl⟩ := Option.map_eq_some_iff.mp hstored
            exact (hvalue t ht).liesIn
          · exact Nat.lt_of_lt_of_le hlast.offset_lt hk
          · intro stored hstored
            obtain ⟨t, ht, rfl⟩ := Option.map_eq_some_iff.mp hstored
            have hle := (hvalue t ht).le_offset
            have hlt := (hvalue t ht).offset_lt
            exact ⟨Nat.le_trans hrk hle, hlt⟩
        · intro hout
          rw [h.pending_eq hout] at hp
          cases hp

/-- What waits does not change where the construction stands. -/
private theorem progress_expectValue (c : Construction) (t : Token) (r : Nat) :
    (c.expectValue t).progress r = c.progress r := by
  unfold expectValue
  split
  · rename_i hp
    simp only [progress, stage, startTag?, hp]
  · rfl

/-- The name of an attribute waits for its value. -/
private theorem Paced.expectValue {inTag : Bool} (h : c.Paced source inTag r k) {t : Token}
    (hready : (c.expectValue t).Ready) (ht : t.location.LiesBetween source k t.location.stop) :
    (c.expectValue t).Paced source true r t.location.stop := by
  have hr : r ≤ t.location.offset := Nat.le_trans h.reached_le ht.le_offset
  have hstop : t.location.offset ≤ t.location.stop := Nat.le_add_right _ _
  refine ⟨hready, Nat.le_trans hr hstop, ?_, ?_, nofun⟩
  · -- the attribute that waits now is the token itself
    intro id last
    unfold Construction.expectValue
    split
    · intro hp
      cases hp
      exact ⟨ht.liesIn, hr, ht.size_pos, Nat.le_refl _⟩
    · rename_i hother
      exact fun hp => absurd hp (hother id _)
  · -- an end tag has no attributes: it stays pending with the place it had
    intro name location
    unfold Construction.expectValue
    split
    · intro hp
      cases hp
    · exact fun hp => (h.closing name location hp).mono (Nat.le_trans ht.le_offset hstop)

/-- A start tag that begins after all that was read. -/
private theorem openTag_course (h : c.Paced source false r k) {t : Token} {k' : Nat}
    (ht : t.location.LiesBetween source k k') :
    Course source (c.progress r) (c.openTag v t).2
      ((c.openTag v t).1.progress t.location.stop) := by
  have hsplit := List.takeWhile_append_dropWhile (p := isEndedBy v t c) (l := c.openElements)
  have hids : ∀ id ∈ c.openElements.takeWhile (isEndedBy v t c), id < c.document.size :=
    fun id hid => h.ready.sound.lt_size ((List.takeWhile_sublist _).subset hid)
  have hr : r ≤ t.location.offset := Nat.le_trans h.reached_le ht.le_offset
  -- the elements that the start tag ends are closed where it begins
  obtain ⟨d, k₁, hd, hsize, hk₁, hclose⟩ := closeAll_course source
    (closingBefore t c.document.size) c.document (some (newElement v t c)) _
    (c.openElements.dropWhile (isEndedBy v t c)) hids (fun _ => rfl) (fun _ _ => ⟨rfl, rfl⟩)
    (fun _ => rfl) hr fun _ _ => ht.liesIn
  rw [hsplit] at hclose
  rw [openTag_eq]
  simp only [Document.showing] at hd hclose
  simp only [hd, progress, stage, startTag?, h.pending_eq rfl]
  have hadopt : ∀ p n, (d.push n).appendChild p c.document.size = d.adopt p n := by
    intro p n
    rw [Document.adopt, hsize]
  rw [hadopt]
  have hannounce : Course source ⟨⟨c.document, c.openElements, none⟩, none, r⟩ []
      ⟨⟨c.document, c.openElements, some (newElement v t c)⟩, none, r⟩ :=
    .of_advance (.announce _ _ _ _ ht.liesIn)
  exact hannounce.append (hclose.append (.of_advance (.place hk₁ ht.size_pos)))

/-- An end tag: the elements inside the one that it names end where it begins. -/
private theorem closeTag_course (h : c.stage.Sound) (hp : c.pending = none) (name : String)
    {location : Location} (hl : location.LiesIn source) (hr : r ≤ location.offset) :
    ∃ r', r' ≤ location.stop ∧
      Course source (c.progress r) (c.closeTag v name location).2
        ((c.closeTag v name location).1.progress r') := by
  have hstop : location.offset ≤ location.stop := Nat.le_add_right _ _
  have hsplit := List.takeWhile_append_dropWhile
    (p := fun id => !isCalled name (c.document.node id)) (l := c.openElements)
  simp only [closeTag_eq]
  split
  · exact ⟨r, Nat.le_trans hr hstop,
      .of_advance (.remark (by simp [Event.IsRemark]) (fun _ => hl) (Nat.le_refl _) trivial)⟩
  · -- the elements inside are closed at the start of the end tag, the found one at its end
    rename_i found left hfound
    rw [hfound] at hsplit
    have hids : ∀ id ∈ c.openElements.takeWhile fun id => !isCalled name (c.document.node id),
        id < c.document.size := fun id hid => h.lt_size ((List.takeWhile_sublist _).subset hid)
    obtain ⟨d, k₁, hd, hsize, hk₁, hinner⟩ := closeAll_course source (closingInside v name location)
      c.document none _ (found :: left) hids (fun _ => rfl) (by simp) (fun _ => rfl) hr
        fun _ _ => hl
    have hf : found < d.size := by
      rw [hsize]
      exact h.lt_size ((List.dropWhile_sublist _).subset (hfound ▸ List.mem_cons_self ..))
    have houter := closeOne_course source ⟨none, .explicit, none, location, location.stop⟩ none
      left rfl hf (by simp) (Nat.le_trans hk₁ hstop) fun _ => hl
    rw [hsplit] at hinner
    simp only [Document.showing] at hd hinner houter
    refine ⟨location.stop, Nat.le_refl _, ?_⟩
    simp only [progress, stage, startTag?, hp, hd]
    exact hinner.append houter

/-- The end of a start tag. -/
private theorem finishOpening_course (h : c.Ready) {id : Nat} {last : Option PendingAttribute}
    (hp : c.pending = some (.opening id last)) {t : Token} (ht : t.location.LiesIn source)
    (hr : r ≤ t.location.stop) :
    Course source (c.progress r) (c.finishOpening id t).2
      ((c.finishOpening id t).1.progress t.location.stop) := by
  have htop := h.pending_top id last hp
  obtain ⟨ids, hids⟩ := List.head?_eq_some_iff.mp htop
  have hid : id < c.document.size := h.sound.lt_size (List.mem_of_mem_head? htop)
  have hwiden : Course source (c.progress r) []
      ⟨⟨c.document.widen id t.location t.isSelfClosing, id :: ids, none⟩, none,
        t.location.stop⟩ := by
    simp only [progress, stage, startTag?, hp, hids]
    exact .of_advance (.widen t.location t.isSelfClosing ht hr)
  have hwide : id < (c.document.widen id t.location t.isSelfClosing).size := by
    unfold Document.widen
    rwa [Document.size_modify]
  simp only [finishOpening_eq, hids]
  split
  · -- the element is closed in the document with the wider start tag
    exact hwiden.append
      (closeOne_course source ⟨none, _, none, _, t.location.stop⟩ none ids rfl hwide (by simp)
      (Nat.le_refl _) fun hd => liesIn_node_showing hd hwide none)
  · exact hwiden

/-- The end of a tag. -/
private theorem finishTag_course {inTag : Bool} (h : c.Paced source inTag r k) {t : Token}
    {k' : Nat} (ht : t.location.LiesBetween source k k') :
    ∃ r', r' ≤ t.location.stop ∧
      Course source (c.progress r) (c.finishTag v t).2 ((c.finishTag v t).1.progress r') := by
  have hk : k ≤ t.location.stop := Nat.le_trans ht.le_offset (Nat.le_add_right _ _)
  have hr : r ≤ t.location.stop := Nat.le_trans h.reached_le hk
  cases hp : c.pending with
  | none =>
    simp only [finishTag_eq, hp]
    exact ⟨r, hr, .done _⟩
  | some tag =>
    cases tag with
    | opening id last =>
      simp only [finishTag_eq, hp]
      exact ⟨_, Nat.le_refl _, finishOpening_course h.ready hp ht.liesIn hr⟩
    | closing name location =>
      -- the end tag reaches from its `</`, which waited, to the `>` read now
      have hwaits := h.closing name location hp
      have hlies : (location.extendTo t.location).LiesIn source := hwaits.liesIn.extendTo ht.liesIn
      have hoffset : r ≤ (location.extendTo t.location).offset := by
        rw [Location.offset_extendTo]
        exact hwaits.le_offset
      obtain ⟨r', hr', hcourse⟩ :=
        closeTag_course (v := v) (c := { c with pending := none }) h.ready.sound rfl
        name hlies hoffset
      rw [Location.stop_extendTo (Nat.le_trans hwaits.stop_le hk)] at hr'
      refine ⟨r', hr', ?_⟩
      simp only [finishTag_eq, hp]
      simpa only [progress, stage, startTag?, hp] using hcourse

/-- One token that comes after all that was read. -/
theorem Paced.step {inTag : Bool} (h : c.Paced source inTag r k) (v : Vocabulary) {t : Token}
    (hin : t.kind.inTag = inTag) (hstands : t.StandsIn source)
    (ht : t.location.LiesBetween source k t.location.stop) :
    ∃ r', Course source (c.progress r) (c.step v t).2 ((c.step v t).1.progress r') ∧
      (c.step v t).1.Paced source t.kind.leadsIntoTag r' t.location.stop := by
  have hready := h.ready.step v t
  have hr : r ≤ t.location.offset := Nat.le_trans h.reached_le ht.le_offset
  have hstop : t.location.offset ≤ t.location.stop := Nat.le_add_right _ _
  have hrk : r ≤ t.location.stop := Nat.le_trans hr hstop
  cases hkind : t.kind with
  | tagOpen =>
    rw [hkind] at hin
    subst hin
    simp only [Construction.step_eq, hkind] at hready ⊢
    split
    · -- an end tag begins, and its place waits
      rename_i hend
      rw [if_pos hend] at hready
      refine ⟨r, ?_, hready, hrk, by simp, ?_, by simp [TokenKind.leadsIntoTag]⟩
      · simp only [progress, stage, startTag?, h.pending_eq rfl]
        exact .done _
      · intro name location hp
        cases hp
        exact ⟨ht.liesIn, hr, ht.size_pos, Nat.le_refl _⟩
    · -- a start tag leaves the new element pending, with no attribute waiting
      rename_i hstart
      rw [if_neg hstart] at hready
      refine ⟨_, openTag_course h ht, hready, Nat.le_refl _, ?_, ?_,
        by simp [TokenKind.leadsIntoTag]⟩
      · intro id last hp
        rw [openTag_eq] at hp
        cases hp
      · intro name location hp
        rw [openTag_eq] at hp
        cases hp
  | attrName =>
    -- the attribute before is stored without a value, and the new one waits
    obtain ⟨r', hcourse, hpaced⟩ := h.storeLast none (Nat.le_refl k) (by simp)
    simp only [Construction.step_eq, hkind] at hready ⊢
    refine ⟨r', ?_, hpaced.expectValue hready ht⟩
    rw [progress_expectValue]
    exact hcourse
  | attrValue =>
    obtain ⟨r', hcourse, hpaced⟩ := h.storeLast (some t) (Nat.le_trans ht.le_offset hstop)
      (by rintro _ ⟨⟩; exact ht)
    simp only [Construction.step_eq, hkind]
    exact ⟨r', hcourse, hpaced.ready, hpaced.reached_le, hpaced.waiting, hpaced.closing,
      by simp [TokenKind.leadsIntoTag]⟩
  | tagClose =>
    -- the last attribute is stored before the tag ends
    obtain ⟨r₁, hfirst, hpaced⟩ := h.storeLast none (Nat.le_refl k) (by simp)
    obtain ⟨r', hr', hlater⟩ := finishTag_course (v := v) hpaced ht
    simp only [Construction.step_eq, hkind] at hready ⊢
    exact ⟨r', hfirst.append hlater, .of_pending hready (pending_finishTag v t _) hr' _⟩
  | text =>
    rw [hkind] at hin
    subst hin
    have hpending := h.pending_eq rfl
    simp only [Construction.step_eq, hkind] at hready ⊢
    refine ⟨t.location.stop, ?_, .of_pending hready hpending (Nat.le_refl _) _⟩
    simp only [progress, stage, startTag?, hpending, addText]
    exact .of_advance (.text _ _ _ ht.liesIn hr ht.size_pos)
  | comment =>
    rw [hkind] at hin
    subst hin
    have hpending := h.pending_eq rfl
    simp only [Construction.step_eq, hkind]
    -- a comment matters only if it is a directive, which moves the clock past itself
    cases he : Directive.event? t c.current with
    | none => exact ⟨r, .done _, .of_pending h.ready hpending hrk _⟩
    | some e =>
      refine ⟨t.location.stop, ?_, .of_pending h.ready hpending (Nat.le_refl _) _⟩
      exact .of_advance (.remark (Directive.isRemark_of_event? he)
        (fun _ => Directive.liesIn_of_event? hstands he) hrk
        (Directive.standsBetween_of_event? hstands he hr))
  | doctype =>
    rw [hkind] at hin
    subst hin
    simp only [Construction.step_eq, hkind]
    exact ⟨r, .of_advance
      (.remark (by simp [Event.IsRemark]) (fun _ => ht.liesIn) (Nat.le_refl _) trivial),
      .of_pending h.ready (h.pending_eq rfl) hrk _⟩

/-! ## All tokens -/

/-- At the start nothing has been read and nothing waits. -/
theorem Paced.ofLength (source : List Char) (length : Nat) :
    (Construction.ofLength length).Paced source false 0 0 :=
  .of_pending (.ofLength length) rfl (Nat.le_refl 0) _

/-- The first event changes nothing about where the construction stands. -/
private theorem progress_start (c : Construction) (r : Nat) :
    c.start.1.progress r = c.progress r := by
  unfold start
  split <;> rfl

/-- The first event changes nothing about what waits. -/
theorem Paced.start {inTag : Bool} (h : c.Paced source inTag r k) :
    c.start.1.Paced source inTag r k := by
  refine ⟨h.ready.start, h.reached_le, ?_, ?_, ?_⟩
  · rw [pending_start]
    exact h.waiting
  · rw [pending_start]
    exact h.closing
  · rw [pending_start]
    exact h.pending_eq

/-- Tokens that come after all that was read are taken in along a course, whatever comes after
them.  Once the construction has started, its moments are those that are shown. -/
theorem takeIn_course (v : Vocabulary) {whole : Prop} {inTag : Bool} {ts rest : List Token}
    (h : c.Paced source inTag r k) (hts : Token.TileFrom whole source inTag k (ts ++ rest)) :
    ∃ inTag' r' k' ms, Course source (c.progress r) ms ((takeIn v ts c).1.progress r') ∧
      (takeIn v ts c).1.Paced source inTag' r' k' ∧ Token.TileFrom whole source inTag' k' rest ∧
      (c.started = true → (takeIn v ts c).2 = ms) := by
  induction ts generalizing c inTag r k with
  | nil => exact ⟨inTag, r, k, [], .done _, h, hts, fun _ => rfl⟩
  | cons t ts ih =>
    obtain ⟨hin, hstands, ht, hlater⟩ := Token.TileFrom.cons hts
    obtain ⟨r₁, hfirst, hpaced⟩ := h.start.step v hin hstands ht
    obtain ⟨inTag', r', k', ms, hcourse, hpaced', hrest, hms⟩ := ih hpaced hlater
    rw [progress_start] at hfirst
    refine ⟨inTag', r', k', _, hfirst.append hcourse, hpaced', hrest, ?_⟩
    intro hs
    have hstart : c.start = (c, []) := by simp [Construction.start, hs]
    have hms' := hms (by rw [step_started, hstart, hs])
    rw [hstart] at hms' ⊢
    simp only [takeIn, push_of_started hs, hms']

/-- The end of the source closes what is open, there. -/
private theorem finish_course (h : c.Ready) (hp : c.pending = none) (hs : c.started = true)
    (hr : r ≤ c.document.sourceLength) :
    ∃ ms d k, k ≤ c.document.sourceLength ∧
    Course source (c.progress r) ms ⟨⟨d, [], none⟩, none, k⟩ ∧
      c.finish v = (d.ended, ms ++ [⟨.domReady, d.ended⟩]) := by
  have hids : ∀ id ∈ c.openElements, id < c.document.size := fun id hid => h.sound.lt_size hid
  obtain ⟨d, k, hd, hsize, hk, hcourse⟩ := closeAll_course source
    (closingAtEnd v c.document.sourceLength) c.document none c.openElements [] hids (fun _ => rfl)
    (by simp) (fun _ => rfl) hr fun _ hn => hn
  rw [List.append_nil] at hcourse
  have hlength : d.sourceLength = c.document.sourceLength := hcourse.run.sourceLength_eq
  have hprogress : c.progress r = ⟨⟨c.document, c.openElements, none⟩, none, r⟩ := by
    simp only [progress, stage, startTag?, hp]
  rw [← hprogress] at hcourse
  refine ⟨_, d, k, hk, hcourse, ?_⟩
  simp only [Document.showing] at hd
  simp only [finish_eq, start, hs, if_true, Document.showing, hd, Document.ended, hlength,
    List.nil_append]

end Construction

/-- Between the first event and the last, the making of the document of a source goes through the
source from its start to its end. -/
theorem record_course {source : String} (h : (tokenize source).failure = none) (v : Vocabulary) :
    ∃ ms d k, k ≤ byteLength source.toList ∧
      Course source.toList (.ofLength (byteLength source.toList)) ms ⟨⟨d, [], none⟩, none, k⟩ ∧
      Construction.record v (tokenize source).tokens (byteLength source.toList) =
        (d.ended, ⟨.domLoad, .ofLength (byteLength source.toList)⟩ :: ms ++
          [⟨.domReady, d.ended⟩]) := by
  let length := byteLength source.toList
  -- run from the started construction: the first moment is `domLoad` and is no move
  let c : Construction := { Construction.ofLength length with started := true }
  have hpaced : c.Paced source.toList false 0 0 :=
    .of_pending (c := c) ⟨Stage.Sound.ofLength length, by simp [c, Construction.ofLength]⟩ rfl
      (Nat.le_refl 0) _
  have htiles := tokenize_tileFrom source
  rw [← List.append_nil (tokenize source).tokens] at htiles
  obtain ⟨inTag, r, k, ms₁, htaken, hlast, hend, hms₁⟩ := Construction.takeIn_course v hpaced htiles
  -- a source without a failure ends outside every tag
  have hpending := hlast.pending_eq (hend.inTag_eq_false h)
  have hstarted := (Construction.takeIn_run (v := v) hpaced.ready rfl (tokenize source).tokens).2.2
  obtain rfl := hms₁ rfl
  have hlength :
      (Construction.takeIn v (tokenize source).tokens c).1.document.sourceLength = length :=
    htaken.run.sourceLength_eq
  obtain ⟨ms, d, k', hk, hclosed, hfinish⟩ :=
    Construction.finish_course (v := v) hlast.ready hpending hstarted
    (Nat.le_trans (Nat.le_trans hlast.reached_le hend.le_byteLength) (Nat.le_of_eq hlength.symm))
  obtain ⟨hdoc, hmoments⟩ := Construction.takeIn_finish_of_not_started (v := v)
    (c := Construction.ofLength length) rfl (tokenize source).tokens
  rw [hlength] at hk
  refine ⟨_, d, k', hk, htaken.append hclosed, ?_⟩
  rw [Construction.record_eq]
  simp only [length] at hdoc hmoments
  simp only [hdoc, hmoments]
  show ((Construction.finish v (Construction.takeIn v (tokenize source).tokens c).1).1, _ ::
    ((Construction.takeIn v (tokenize source).tokens c).2 ++
      (Construction.finish v (Construction.takeIn v (tokenize source).tokens c).1).2)) = _
  simp only [hfinish, List.append_assoc, List.cons_append]
  rfl

end HtmlLint
