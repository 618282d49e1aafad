import HtmlLint.Document.Parsing
import HtmlLint.Proofs.Construction.Closing

/-!
# Every construction is a run

Taking in a token is a run of moves (`step_run`), whatever the token and whatever came before it,
and so is the making of a whole document between its first and its last event (`record_run`).
Parsing a source shows an observer what `record` keeps (`observeParsing_eq`, `parse_eq`).  The
invariant that carries this from token to token is `Construction.Ready`: the stage is sound, and a
start tag whose end has not come yet is that of the innermost open element.
-/

namespace HtmlLint

/-- What a comment says is a remark, made inside the node that the comment stands in. -/
theorem Directive.isRemark_of_event? {t : Token} {parent : NodeId} {e : Event}
    (h : Directive.event? t parent = some e) : e.IsRemark parent := by
  simp only [Directive.event?] at h
  split at h
  · split at h
    · cases h; trivial
    · split at h
      · cases h; trivial
      · cases h; rfl
  · cases h

/-- What a comment says is a directive, or that it is none. -/
theorem Directive.kind_of_event? {t : Token} {parent : NodeId} {e : Event}
    (h : Directive.event? t parent = some e) :
    e.kind = .directive ∨ e.kind = .invalidDirective := by
  simp only [Directive.event?] at h
  split at h
  · split at h
    · cases h; exact .inr rfl
    · split at h
      · cases h; exact .inr rfl
      · cases h; exact .inl rfl
  · cases h

/-- Events of this kind tell that an element begins or ends, or that it should have. -/
def EventKind.isStructural : EventKind → Bool
  | tagOpen | tagClose | elementReady | parseError => true
  | domLoad | attr | doctype | directive | invalidDirective | domReady => false

namespace Construction

/-- Where a construction stands between two tokens. -/
def stage (c : Construction) : Stage :=
  ⟨c.document, c.openElements, none⟩

/-- Between two tokens the stage is sound, and a start tag without end is that of the current
element. -/
structure Ready (c : Construction) : Prop where
  sound : c.stage.Sound
  pending_top : ∀ id last, c.pending = some (.opening id last) → c.openElements.head? = some id

/-- At the start no tag has begun. -/
theorem Ready.ofLength (length : Nat) : (Construction.ofLength length).Ready :=
  ⟨Stage.Sound.ofLength length, by simp [Construction.ofLength]⟩

/-! ## Closing elements -/

section Closing

/-- Closing the current element is a move, after a remark if there is something to complain
about. -/
theorem closeOne_run (how : Closing) {d : Document} (new : Option Node) (left : List NodeId)
    {id : Nat} (hid : id < d.size) (hp : how.previous = new.map Node.id)
    (hn : new.isSome → how.error = none ∧ how.kind = .implicit) :
    (closeOne id how (d.showing new)).1 = (d.close id how.kind how.stop).showing new ∧
    Run ⟨d, id :: left, new⟩ (closeOne id how (d.showing new)).2
      ⟨d.close id how.kind how.stop, left, new⟩ := by
  have hdoc : (d.showing new).close id how.kind how.stop =
      (d.close id how.kind how.stop).showing new := by
    cases new with
    | none => rfl
    | some n => exact Document.close_push hid n _ _
  have hclose : Run ⟨d, id :: left, new⟩ _ ⟨d.close id how.kind how.stop, left, new⟩ :=
    .of_move (.close how.location how.stop fun h => (hn h).2)
  simp only [closeOne, hdoc, hp]
  refine ⟨trivial, ?_⟩
  cases he : how.error with
  | none => exact hclose
  | some e =>
    -- an error is reported only where no element is upcoming
    cases new with
    | some n => rw [(hn rfl).1] at he; cases he
    | none => exact .append (.of_move (.remark (by simp [Event.IsRemark]))) hclose

/-- Closing elements from the innermost on is a run, if nothing changes in how it is done. -/
private theorem closeAll_run (how : Node → Closing) (d : Document) (new : Option Node)
    (ids left : List NodeId) (hids : ∀ id ∈ ids, id < d.size)
    (hp : ∀ n, (how n).previous = new.map Node.id)
    (hn : new.isSome → ∀ n, (how n).error = none ∧ (how n).kind = .implicit) :
    ∃ d', (closeAll how ids (d.showing new)).1 = d'.showing new ∧ d'.size = d.size ∧
      Run ⟨d, ids ++ left, new⟩ (closeAll how ids (d.showing new)).2 ⟨d', left, new⟩ := by
  -- a new node that waits for its place keeps waiting while elements are closed
  induction ids generalizing d with
  | nil => exact ⟨d, rfl, rfl, .done _⟩
  | cons id ids ih =>
    have hid : id < d.size := hids id (List.mem_cons_self ..)
    obtain ⟨hdoc, hrun⟩ := closeOne_run (how ((d.showing new).node id)) new (ids ++ left) hid (hp _)
      fun h => hn h _
    have hsize : ∀ k stop, ∀ i ∈ ids, i < (d.close id k stop).size := by
      intro k stop i hi
      rw [Document.size_close]
      exact hids i (List.mem_cons_of_mem _ hi)
    obtain ⟨d', hd', hs', hrun'⟩ := ih _ (hsize _ _)
    simp only [closeAll, hdoc]
    refine ⟨d', hd', ?_, hrun.append hrun'⟩
    rw [hs', Document.size_close]

end Closing

/-! ## One token -/

section Token

variable {v : Vocabulary} {c : Construction}

/-- Opening an element: it is announced, the elements that it ends are closed, and it is placed. -/
private theorem openTag_run (h : c.Ready) (t : Token) :
    Run c.stage (c.openTag v t).2 (c.openTag v t).1.stage := by
  have hsplit := List.takeWhile_append_dropWhile (p := isEndedBy v t c) (l := c.openElements)
  have hids : ∀ id ∈ c.openElements.takeWhile (isEndedBy v t c), id < c.document.size :=
    fun id hid => h.sound.lt_size ((List.takeWhile_sublist _).subset hid)
  obtain ⟨d, hd, hsize, hclose⟩ := closeAll_run (closingBefore t c.document.size) c.document
    (some (newElement v t c)) _ (c.openElements.dropWhile (isEndedBy v t c)) hids (fun _ => rfl)
    (fun _ _ => ⟨rfl, rfl⟩)
  rw [hsplit] at hclose
  rw [openTag_eq]
  simp only [Document.showing] at hd hclose
  simp only [hd, stage]
  -- closing elements does not change the number of the new one
  have hadopt : ∀ p n, (d.push n).appendChild p c.document.size = d.adopt p n := by
    intro p n
    rw [Document.adopt, hsize]
  rw [hadopt]
  have hannounce : Run c.stage [] ⟨c.document, c.openElements, some (newElement v t c)⟩ :=
    .of_move (.announce _ _ _ _)
  exact hannounce.append (hclose.append (.of_move .place))

/-- Storing an attribute is a move, or nothing if none waits. -/
private theorem storeLast_run (h : c.Ready) (value : Option Token) :
    Run c.stage (c.storeLast value).2 (c.storeLast value).1.stage := by
  cases hp : c.pending with
  | none => simp only [storeLast, hp]; exact .done _
  | some tag =>
    cases tag with
    | closing name location => simp only [storeLast, hp]; exact .done _
    | opening id last =>
      cases last with
      | none => simp only [storeLast, hp]; exact .done _
      | some last =>
        obtain ⟨ids, hids⟩ := List.head?_eq_some_iff.mp (h.pending_top id _ hp)
        simp only [storeLast, hp, stage, hids]
        exact .of_move (.store _)

/-- Storing an attribute keeps the construction ready. -/
theorem Ready.storeLast (h : c.Ready) (value : Option Token) : (c.storeLast value).1.Ready := by
  refine ⟨h.sound.run (storeLast_run h value), fun id last hpending => ?_⟩
  simp only [Construction.storeLast] at hpending ⊢
  split at hpending
  · rename_i node waiting hp
    cases hpending
    exact h.pending_top _ _ hp
  · exact h.pending_top _ _ hpending

/-- Closing the innermost element of a name: the elements inside it are closed first.  Where there
is none, the only thing that happens is a remark. -/
private theorem closeTag_run (h : c.stage.Sound) (name : String) (location : Location) :
    Run c.stage (c.closeTag v name location).2 (c.closeTag v name location).1.stage := by
  have hsplit := List.takeWhile_append_dropWhile
    (p := fun id => !isCalled name (c.document.node id)) (l := c.openElements)
  simp only [closeTag_eq]
  split
  · exact .of_move (.remark (by simp [Event.IsRemark]))
  · rename_i found left hfound
    rw [hfound] at hsplit
    have hids : ∀ id ∈ c.openElements.takeWhile fun id => !isCalled name (c.document.node id),
        id < c.document.size := fun id hid => h.lt_size ((List.takeWhile_sublist _).subset hid)
    obtain ⟨d, hd, hsize, hinner⟩ := closeAll_run (closingInside v name location) c.document none _
      (found :: left) hids (fun _ => rfl) (by simp)
    -- the closings inside add no node, so the found one is still there
    have hf : found < d.size := by
      rw [hsize]
      exact h.lt_size ((List.dropWhile_sublist _).subset (hfound ▸ List.mem_cons_self ..))
    obtain ⟨hd', houter⟩ :=
      closeOne_run ⟨none, .explicit, none, location, location.stop⟩ none left hf rfl (by simp)
    rw [hsplit] at hinner
    simp only [Document.showing] at hd hd' hinner houter
    simp only [stage, hd, hd']
    exact hinner.append houter

/-- The end of a start tag: the current element becomes wider, and it is closed if it has no
content. -/
private theorem finishOpening_run {id : Nat} (h : c.stage.Sound)
    (htop : c.openElements.head? = some id) (t : Token) :
    Run c.stage (c.finishOpening id t).2 (c.finishOpening id t).1.stage := by
  obtain ⟨ids, hids⟩ := List.head?_eq_some_iff.mp htop
  have hid : id < c.document.size := h.lt_size (List.mem_of_mem_head? htop)
  have hwiden : Run c.stage [] ⟨c.document.modify id fun n =>
      { n with location := n.location.extendTo t.location, selfClosed := t.isSelfClosing },
      id :: ids, none⟩ := by
    simp only [stage, hids]
    exact .of_move (.widen t.location t.isSelfClosing)
  simp only [finishOpening_eq, hids]
  split
  · rename_i hempty
    obtain ⟨hd, hclose⟩ := closeOne_run ⟨none, _, none, _, t.location.stop⟩ none ids
      (Document.size_modify c.document id _ ▸ hid) rfl (by simp)
    exact hwiden.append hclose
  · exact hwiden

/-- The end of a tag. -/
private theorem finishTag_run (h : c.Ready) (t : Token) :
    Run c.stage (c.finishTag v t).2 (c.finishTag v t).1.stage := by
  cases hp : c.pending with
  | none => simp only [finishTag_eq, hp]; exact .done _
  | some tag =>
    cases tag with
    | opening id last =>
      simp only [finishTag_eq, hp]
      exact finishOpening_run h.sound (h.pending_top id last hp) t
    | closing name location =>
      simp only [finishTag_eq, hp]
      exact closeTag_run (c := { c with pending := none }) h.sound name _

/-- Whatever the token, taking it in is a run. -/
theorem step_run (h : c.Ready) (t : Token) : Run c.stage (c.step v t).2 (c.step v t).1.stage := by
  simp only [step_eq]
  split
  · -- the beginning of a tag
    split
    · exact .done _
    · exact openTag_run h t
  · -- an attribute's name: the stage does not depend on what is pending
    have hstage : ((c.storeLast none).1.expectValue t).stage = (c.storeLast none).1.stage := by
      simp only [expectValue]
      split <;> rfl
    show Run _ (c.storeLast none).2 ((c.storeLast none).1.expectValue t).stage
    rw [hstage]
    exact storeLast_run h none
  · exact storeLast_run h (some t)
  · -- the end of a tag
    exact (storeLast_run h none).append (finishTag_run (h.storeLast none) t)
  · exact .of_move (.text _ _ _)
  · -- a comment, which may hold a directive
    cases he : Directive.event? t c.current with
    | none => exact .done _
    | some e => exact .of_move (.remark (Directive.isRemark_of_event? he))
  · exact .of_move (.remark (by simp [Event.IsRemark]))

/-- After the end of a tag nothing is pending. -/
theorem pending_finishTag (v : Vocabulary) (t : Token) (c : Construction) :
    (c.finishTag v t).1.pending = none := by
  simp only [finishTag_eq]
  split
  · simp only [finishOpening_eq]
    split
    · split <;> rfl
    · rfl
  · simp only [closeTag_eq]
    split <;> rfl
  · assumption

/-- So does every token: only a start tag leaves its element waiting, and that is the current one.
-/
theorem Ready.step (h : c.Ready) (v : Vocabulary) (t : Token) : (c.step v t).1.Ready := by
  refine ⟨h.sound.run (step_run h t), fun id last => ?_⟩
  simp only [Construction.step_eq]
  split
  · split
    · simp
    · -- a new start tag is that of the innermost open element
      intro hp
      rw [openTag_eq] at hp ⊢
      cases hp
      rfl
  · simp only [expectValue]
    have hready := h.storeLast none
    split
    · -- the pending tag is the same, with another attribute
      rename_i hp
      intro hnew
      cases hnew
      exact hready.pending_top _ _ hp
    · exact hready.pending_top id last
  · exact (h.storeLast (some t)).pending_top id last
  · simp [pending_finishTag]
  · -- a text, a comment or a doctype leaves the pending tag as it is
    exact h.pending_top id last
  · exact h.pending_top id last
  · exact h.pending_top id last

end Token

/-! ## All tokens -/

/-- Take in tokens and keep every moment. -/
def takeIn (v : Vocabulary) : List Token → Construction → Construction × List Moment
  | [], c => (c, [])
  | t :: ts, c =>
    let next := c.push v t
    let later := takeIn v ts next.1
    (later.1, next.2 ++ later.2)

/-- Tokens may be taken in in two parts. -/
theorem takeIn_append (v : Vocabulary) (ts ts' : List Token) (c : Construction) :
    takeIn v (ts ++ ts') c =
      ((takeIn v ts' (takeIn v ts c).1).1,
        (takeIn v ts c).2 ++ (takeIn v ts' (takeIn v ts c).1).2) := by
  induction ts generalizing c with
  | nil => rfl
  | cons t ts ih => simp only [List.cons_append, takeIn, ih, List.append_assoc]

/-- An observer sees exactly these moments, one after the other. -/
theorem pushAll_eq_foldl {σ : Type} (v : Vocabulary) (observe : σ → Moment → σ) (ts : List Token)
    (c : Construction) (s : σ) :
    pushAll v observe ts c s = ((takeIn v ts c).1, (takeIn v ts c).2.foldl observe s) := by
  induction ts generalizing c s with
  | nil => rfl
  | cons t ts ih => simp only [pushAll, takeIn, ih, List.foldl_append]

/-- The whole making of a document: all tokens are taken in, the document is ended, and every moment
is kept. -/
def record (v : Vocabulary) (ts : List Token) (length : Nat) : Document × List Moment :=
  let built := pushAll v (fun seen m => m :: seen) ts (.ofLength length) []
  let last := built.1.finish v
  (last.1, built.2.reverse ++ last.2)

/-- The making of a document is taking in the tokens and then ending the document. -/
theorem record_eq (v : Vocabulary) (ts : List Token) (length : Nat) :
    record v ts length =
      let built := takeIn v ts (.ofLength length)
      ((built.1.finish v).1, built.2 ++ (built.1.finish v).2) := by
  have hkeep : ∀ ms : List Moment, (ms.foldl (fun seen m => m :: seen) []).reverse = ms := by
    intro ms
    rw [List.foldl_flip_cons_eq_append', List.append_nil, List.reverse_reverse]
  simp only [record, pushAll_eq_foldl, hkeep]

/-! ## What a token has to tell -/

/-- Closing an element shows structural events only. -/
private theorem closeOne_isStructural (id : NodeId) (how : Closing) (d : Document) :
    ∀ m ∈ (closeOne id how d).2, m.event.kind.isStructural = true := by
  intro m hm
  cases herror : how.error <;> simp [closeOne, herror] at hm
  · obtain rfl | rfl := hm <;> rfl
  · obtain rfl | rfl | rfl := hm <;> rfl

/-- So does closing several of them. -/
theorem closeAll_isStructural (how : Node → Closing) (ids : List NodeId) (d : Document) :
    ∀ m ∈ (closeAll how ids d).2, m.event.kind.isStructural = true := by
  induction ids generalizing d with
  | nil => exact fun m hm => nomatch hm
  | cons id ids ih =>
    intro m hm
    cases List.mem_append.mp hm with
    | inl hm => exact closeOne_isStructural _ _ _ m hm
    | inr hm => exact ih _ m hm

/-- So does opening one. -/
theorem openTag_isStructural (v : Vocabulary) (t : Token) (c : Construction) :
    ∀ m ∈ (c.openTag v t).2, m.event.kind.isStructural = true := by
  rw [openTag_eq]
  intro m hm
  cases List.mem_append.mp hm with
  | inl hm => exact closeAll_isStructural _ _ _ m hm
  | inr hm =>
    rw [List.mem_singleton.mp hm]
    rfl

/-- So does the end of a tag. -/
theorem finishTag_isStructural (v : Vocabulary) (t : Token) (c : Construction) :
    ∀ m ∈ (c.finishTag v t).2, m.event.kind.isStructural = true := by
  simp only [finishTag_eq]
  split
  · simp only [finishOpening_eq]
    split
    · split
      · exact closeOne_isStructural _ _ _
      · exact fun m hm => nomatch hm
    · exact fun m hm => nomatch hm
  · -- an end tag closes elements, or is reported
    simp only [closeTag_eq]
    split
    · intro m hm
      rw [List.mem_singleton.mp hm]
      rfl
    · intro m hm
      cases List.mem_append.mp hm with
      | inl hm => exact closeAll_isStructural _ _ _ m hm
      | inr hm => exact closeOne_isStructural _ _ _ m hm
  · exact fun m hm => nomatch hm

/-- Storing an attribute shows an attribute of the start tag that is being read. -/
private theorem attr_of_mem_storeLast {value : Option Token} {c : Construction} {m : Moment}
    (h : m ∈ (c.storeLast value).2) :
    ∃ id last a, c.pending = some (.opening id (some last)) ∧ m.event = .attr id a := by
  simp only [storeLast] at h
  split at h
  · rename_i id last hp
    rw [List.mem_singleton.mp h]
    exact ⟨id, last, _, hp, rfl⟩
  · cases h

/-- A token tells where elements begin and end, gives the attribute that has waited, or is a comment
or a doctype that tells of itself. -/
theorem mem_step_cases {v : Vocabulary} {t : Token} {c : Construction} {m : Moment}
    (h : m ∈ (c.step v t).2) :
    m.event.kind.isStructural = true ∨
    (∃ id last a, c.pending = some (.opening id (some last)) ∧ m.event = .attr id a) ∨
    (t.kind = .comment ∧ Directive.event? t c.current = some m.event) ∨
    (t.kind = .doctype ∧ m.event = .doctype t.doctypeValue t.location) := by
  cases hkind : t.kind with
  | tagOpen =>
    simp only [step_eq, hkind] at h
    split at h
    · cases h
    · exact .inl (openTag_isStructural v t c m h)
  | attrName =>
    simp only [step_eq, hkind] at h
    exact .inr (.inl (attr_of_mem_storeLast h))
  | attrValue =>
    simp only [step_eq, hkind] at h
    exact .inr (.inl (attr_of_mem_storeLast h))
  | tagClose =>
    simp only [step_eq, hkind] at h
    cases List.mem_append.mp h with
    | inl h => exact .inr (.inl (attr_of_mem_storeLast h))
    | inr h => exact .inl (finishTag_isStructural v t _ m h)
  | text =>
    simp only [step_eq, hkind] at h
    cases h
  | comment =>
    simp only [step_eq, hkind] at h
    obtain ⟨said, hsaid, rfl⟩ := List.mem_map.mp h
    exact .inr (.inr (.inl ⟨rfl, Option.mem_toList.mp hsaid⟩))
  | doctype =>
    simp only [step_eq, hkind] at h
    rw [List.mem_singleton.mp h]
    exact .inr (.inr (.inr ⟨rfl, rfl⟩))

section Started

variable {v : Vocabulary} {c : Construction}

/-- A token that is taken in does not undo the start. -/
theorem step_started (v : Vocabulary) (t : Token) (c : Construction) :
    (c.step v t).1.started = c.started := by
  have hstore : ∀ value, (c.storeLast value).1.started = c.started := by
    intro value
    simp only [storeLast]
    split <;> rfl
  simp only [step_eq]
  split
  · split
    · rfl
    · rw [openTag_eq]
  · simp only [expectValue]
    split <;> exact hstore none
  · exact hstore (some t)
  · rw [← hstore none]
    simp only [finishTag_eq]
    split
    · simp only [finishOpening_eq]
      split
      · split <;> rfl
      · rfl
    · simp only [closeTag_eq]
      split <;> rfl
    · rfl
  · rfl
  · rfl
  · rfl

/-- The first event does not change the stage. -/
theorem stage_start (c : Construction) : c.start.1.stage = c.stage := by
  simp only [start]
  split <;> rfl

/-- Nor does it change which tag has not ended. -/
theorem pending_start (c : Construction) : c.start.1.pending = c.pending := by
  simp only [start]
  split <;> rfl

/-- Nor does it change whether the construction is ready. -/
theorem Ready.start (h : c.Ready) : c.start.1.Ready := by
  refine ⟨by rw [stage_start]; exact h.sound, ?_⟩
  simp only [Construction.start]
  split <;> exact h.pending_top

/-- All tokens keep the construction ready. -/
theorem Ready.takeIn (h : c.Ready) (v : Vocabulary) (ts : List Token) :
    (Construction.takeIn v ts c).1.Ready := by
  induction ts generalizing c with
  | nil => exact h
  | cons t ts ih => exact ih (h.start.step v t)

/-- Once the construction has started, a token does nothing but its own step. -/
theorem push_of_started (hs : c.started = true) (t : Token) : c.push v t = c.step v t := by
  simp [push_eq, start, hs]

/-- Once the construction has started, taking in tokens is a run. -/
theorem takeIn_run (h : c.Ready) (hs : c.started = true) (ts : List Token) :
    Run c.stage (takeIn v ts c).2 (takeIn v ts c).1.stage ∧ (takeIn v ts c).1.Ready ∧
      (takeIn v ts c).1.started = true := by
  induction ts generalizing c with
  | nil => exact ⟨.done _, h, hs⟩
  | cons t ts ih =>
    simp only [takeIn, push_of_started hs]
    obtain ⟨hrun, hready, hstarted⟩ := ih (h.step v t) (by rw [step_started, hs])
    exact ⟨(step_run h t).append hrun, hready, hstarted⟩

/-- Ending the document: all open elements are closed, and the root ends with the source. -/
private theorem finish_run (h : c.Ready) (hs : c.started = true) :
    ∃ ms d, Run c.stage ms ⟨d, [], none⟩ ∧
      c.finish v = (d.ended, ms ++ [⟨.domReady, d.ended⟩]) := by
  have hids : ∀ id ∈ c.openElements, id < c.document.size := fun id hid => h.sound.lt_size hid
  obtain ⟨d, hd, hsize, hrun⟩ :=
    closeAll_run (closingAtEnd v c.document.sourceLength) c.document none
    c.openElements [] hids (fun _ => rfl) (by simp)
  rw [List.append_nil] at hrun
  have hlength : d.sourceLength = c.document.sourceLength := hrun.sourceLength_eq
  refine ⟨_, d, hrun, ?_⟩
  simp only [Document.showing] at hd
  simp only [finish_eq, start, hs, if_true, Document.showing, hd, Document.ended, hlength,
    List.nil_append]

/-- Once the construction has started, all that follows is a run. -/
theorem takeIn_finish_run (h : c.Ready) (hs : c.started = true) (ts : List Token) :
    ∃ ms d, Run c.stage ms ⟨d, [], none⟩ ∧ ((takeIn v ts c).1.finish v).1 = d.ended := by
  obtain ⟨hrun, hready, hstarted⟩ := takeIn_run (v := v) h hs ts
  obtain ⟨ms, d, hlast, hfinish⟩ := finish_run (v := v) hready hstarted
  exact ⟨_, d, hrun.append hlast, by rw [hfinish]⟩

/-- Before the construction starts, the first token brings one more moment. -/
theorem takeIn_of_not_started (hs : c.started = false) (t : Token) (ts : List Token) :
    takeIn v (t :: ts) c = ((takeIn v (t :: ts) { c with started := true }).1,
      ⟨.domLoad, c.document⟩ :: (takeIn v (t :: ts) { c with started := true }).2) := by
  simp [takeIn, push_eq, start, hs]

/-- Before the construction starts there is one more moment to come. -/
theorem takeIn_finish_of_not_started (hs : c.started = false) (ts : List Token) :
    let built := takeIn v ts c
    let built' := takeIn v ts { c with started := true }
    (built.1.finish v).1 = (built'.1.finish v).1 ∧
      built.2 ++ (built.1.finish v).2 =
        ⟨.domLoad, c.document⟩ :: (built'.2 ++ (built'.1.finish v).2) := by
  cases ts with
  | nil => simp [takeIn, finish_eq, start, hs]
  | cons t ts => simp [takeIn_of_not_started hs]

end Started

/-- The making of a document is a run between the first event and the last. -/
theorem record_run (v : Vocabulary) (ts : List Token) (length : Nat) :
    ∃ ms d, Run (.ofLength length) ms ⟨d, [], none⟩ ∧
      record v ts length =
        (d.ended, ⟨.domLoad, .ofLength length⟩ :: ms ++ [⟨.domReady, d.ended⟩]) := by
  let c : Construction := { ofLength length with started := true }
  have hc : c.Ready := ⟨Stage.Sound.ofLength length, by simp [c, ofLength]⟩
  obtain ⟨hrun, hready, hstarted⟩ := takeIn_run (v := v) hc rfl ts
  obtain ⟨ms, d, hlast, hfinish⟩ := finish_run (v := v) hready hstarted
  obtain ⟨hdoc, hmoments⟩ := takeIn_finish_of_not_started (v := v) (c := ofLength length) rfl ts
  refine ⟨_, d, hrun.append hlast, ?_⟩
  rw [record_eq]
  simp only [hdoc, hmoments]
  show ((finish v (takeIn v ts c).1).1,
    _ :: ((takeIn v ts c).2 ++ (finish v (takeIn v ts c).1).2)) = _
  simp only [hfinish, List.append_assoc, List.cons_append]
  rfl

end Construction

/-! ## Parsing -/

/-- Collecting events puts the last one first. -/
theorem foldl_event_cons (ms : List Moment) (seen : List Event) :
    ms.foldl (fun seen m => m.event :: seen) seen = (ms.map Moment.event).reverse ++ seen := by
  induction ms generalizing seen with
  | nil => rfl
  | cons m ms ih => simp [ih]

/-- Whether or not the source can be cut up, an observer of its parsing ends with what some moments
leave. -/
theorem observeParsing_snd {σ : Type} (v : Vocabulary) (observe : σ → Moment → σ) (s : σ)
    (source : String) :
    ∃ ms : List Moment, (observeParsing v observe s source).2 = ms.foldl observe s := by
  simp only [observeParsing, Construction.pushAll_eq_foldl]
  split
  · exact ⟨_, rfl⟩
  · exact ⟨_, List.foldl_append.symm⟩

/-- A source that can be cut into tokens is parsed by recording the making of its document. -/
theorem observeParsing_eq {σ : Type} {source : String} (h : (tokenize source).failure = none)
    (v : Vocabulary) (observe : σ → Moment → σ) (s : σ) :
    observeParsing v observe s source =
      let made := Construction.record v (tokenize source).tokens (byteLength source.toList)
      (.ok made.1, made.2.foldl observe s) := by
  simp only [observeParsing, h, Construction.pushAll_eq_foldl, Construction.record_eq,
    List.foldl_append]

/-- A source that can be cut into tokens is parsed into what is recorded of its making. -/
theorem parse_eq {source : String} (h : (tokenize source).failure = none) (v : Vocabulary) :
    parse v source =
      let made := Construction.record v (tokenize source).tokens (byteLength source.toList)
      .ok (made.1, made.2.map Moment.event) := by
  simp only [parse, observeParsing_eq h, foldl_event_cons, List.append_nil, List.reverse_reverse]
  rfl

end HtmlLint
