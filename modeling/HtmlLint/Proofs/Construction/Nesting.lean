import HtmlLint.Proofs.Construction.Run

/-!
# Events are well nested

Whatever the tokens are, the events of making a document begin with one `domLoad` and end with one
`domReady`, and between these every element is opened once, closed once and complete once.  Read as
pushes and pops, the openings and closings never pop anything but the innermost open element.

The invariant is `Accounted`: the openings and closings so far leave exactly the open elements of
the stage, and the number of events about a node depends only on whether it is an element and was
closed.
-/

namespace HtmlLint

namespace Event

/-- Read events with the elements that are open, innermost first.  An element that is opened becomes
the innermost one, and only the innermost one may be closed. -/
def replay : List Event → List NodeId → Option (List NodeId)
  | [], ids => some ids
  | .tagOpen id _ :: es, ids => replay es (id :: ids)
  | .tagClose id _ _ _ :: es, ids => if ids.head? = some id then replay es ids.tail else none
  | _ :: es, ids => replay es ids

/-- The event is of this kind and about this node. -/
def concerns (kind : EventKind) (id : NodeId) (e : Event) : Bool :=
  e.kind == kind && e.target? == some id

/-- Where an element is closed, the next event says that it is complete. -/
def ClosedThenReady (es : List Event) : Prop :=
  ∀ before after id previous kind location, es =
    before ++ .tagClose id previous kind location :: after →
    ∃ location' rest, after = .elementReady id location' :: rest

/-- The event neither opens nor closes anything. -/
def IsQuiet : Event → Prop
  | .parseError .. => True
  | .doctype .. => True
  | .invalidDirective .. => True
  | .directive .. => True
  | .attr .. => True
  | _ => False

/-- Remarks open and close nothing. -/
private theorem IsRemark.isQuiet {current : NodeId} {e : Event} (h : e.IsRemark current) :
    e.IsQuiet := by
  cases e <;> simp_all [IsRemark, IsQuiet]

/-- Events may be replayed in two parts. -/
private theorem replay_append (es es' : List Event) (ids : List NodeId) :
    replay (es ++ es') ids = (replay es ids).bind (replay es') := by
  induction es generalizing ids with
  | nil => rfl
  | cons e es ih =>
    cases e with
    | tagOpen id l => simp only [List.cons_append, replay, ih]
    | tagClose id p k l =>
      simp only [List.cons_append, replay]
      split
      · exact ih _
      · rfl
    | _ => simp only [List.cons_append, replay, ih]

/-- Quiet events change nothing about what is open. -/
private theorem replay_of_isQuiet {es : List Event} (h : ∀ e ∈ es, e.IsQuiet) (ids : List NodeId) :
    replay es ids = some ids := by
  induction es with
  | nil => rfl
  | cons e es ih =>
    have he := h e (List.mem_cons_self ..)
    have hes := ih fun e' he' => h e' (List.mem_cons_of_mem _ he')
    cases e <;> simp_all [IsQuiet, replay]

/-- Quiet events are not among those that are counted. -/
private theorem countP_of_isQuiet {es : List Event} (h : ∀ e ∈ es, e.IsQuiet) {kind : EventKind}
    (hk : kind = .tagOpen ∨ kind = .tagClose ∨ kind = .elementReady) (i : NodeId) :
    es.countP (concerns kind i) = 0 := by
  rw [List.countP_eq_zero]
  intro e he
  have hq := h e he
  obtain rfl | rfl | rfl := hk <;> cases e <;> simp_all [IsQuiet, concerns, Event.kind]

/-- Two parts in each of which closed elements are complete at once. -/
private theorem closedThenReady_append {es es' : List Event} (h : ClosedThenReady es)
    (h' : ClosedThenReady es') :
    ClosedThenReady (es ++ es') := by
  intro before after id previous kind location heq
  obtain ⟨mid, rfl, hmid⟩ | ⟨mid, rfl, hmid⟩ := List.append_eq_append_iff.mp heq
  · exact h' _ _ _ _ _ _ hmid
  · -- the closing is the first event of the second part, or it lies in the first part
    cases mid with
    | nil => exact h' [] _ _ _ _ _ hmid.symm
    | cons e mid =>
      cases hmid
      obtain ⟨location', rest, rfl⟩ := h before mid id previous kind location rfl
      exact ⟨location', rest ++ es', rfl⟩

/-- Quiet events close nothing. -/
private theorem closedThenReady_of_isQuiet {es : List Event} (h : ∀ e ∈ es, e.IsQuiet) :
    ClosedThenReady es := by
  rintro before after id previous kind location rfl
  exact (h (.tagClose id previous kind location) (by simp)).elim

end Event

/-- The events so far account for the elements of a stage. -/
structure Accounted (es : List Event) (s : Stage) : Prop where
  replay_eq : Event.replay es [] = some s.openElements
  closedThenReady : Event.ClosedThenReady es
  inner : .domLoad ∉ es ∧ .domReady ∉ es
  opened : ∀ i : Nat, es.countP (Event.concerns .tagOpen i) =
    if (s.document.elementState? i).isSome then 1 else 0
  closed : ∀ kind, kind = .tagClose ∨ kind = .elementReady → ∀ i : Nat,
    es.countP (Event.concerns kind i) = if (s.document.elementState? i).join.isSome then 1 else 0
  kind_mem : ∀ (i : Nat) (k : CloseKind), s.document.elementState? i = some (some k) →
    ∃ previous location, .tagClose i previous k location ∈ es

namespace Accounted

variable {es es' : List Event} {s t : Stage} {ms : List Moment}

/-- At the start nothing is open. -/
theorem ofLength (length : Nat) : Accounted [] (.ofLength length) := by
  have hnone : ∀ i : Nat, (Stage.ofLength length).document.elementState? i = none := by
    intro i
    cases hs : (Stage.ofLength length).document.elementState? i with
    | none => rfl
    | some state =>
      obtain ⟨n, hn, hkind, -⟩ := Document.elementState?_eq_some.mp hs
      have hi : i < 1 := Document.lt_size_of_get? hn
      obtain rfl : i = 0 := by omega
      cases hn
      cases hkind
  refine ⟨rfl, Event.closedThenReady_of_isQuiet (by simp), by simp, ?_, ?_, ?_⟩
  · intro i; simp [hnone]
  · intro kind _ i; simp [hnone]
  · intro i k hk; simp [hnone] at hk

/-- Quiet events that touch no element keep the account. -/
private theorem quiet (h : Accounted es s) (hq : ∀ e ∈ es', e.IsQuiet)
    (hopen : t.openElements = s.openElements)
    (hstate : ∀ i : Nat, t.document.elementState? i = s.document.elementState? i) :
    Accounted (es ++ es') t := by
  refine ⟨?_, ?_, ?_, ?_, ?_, ?_⟩
  · rw [Event.replay_append, h.replay_eq, hopen]
    exact Event.replay_of_isQuiet hq _
  · exact Event.closedThenReady_append h.closedThenReady (Event.closedThenReady_of_isQuiet hq)
  · simp only [List.mem_append, not_or]
    exact ⟨⟨h.inner.1, fun hm => hq _ hm⟩, ⟨h.inner.2, fun hm => hq _ hm⟩⟩
  · intro i
    rw [List.countP_append, h.opened, hstate, Event.countP_of_isQuiet hq (by simp), Nat.add_zero]
  · intro kind hk i
    rw [List.countP_append, h.closed kind hk, hstate, Event.countP_of_isQuiet hq (.inr hk),
      Nat.add_zero]
  · intro i k hk
    obtain ⟨p, l, hm⟩ := h.kind_mem i k (hstate i ▸ hk)
    exact ⟨p, l, List.mem_append_left _ hm⟩

/-- Closing the innermost open element adds its two events and changes nothing else. -/
private theorem close {d : Document} {id : Nat} {ids : List NodeId} {new : Option Node}
    (h : Accounted es ⟨d, id :: ids, new⟩) (hid : d.IsOpen id) (previous : Option NodeId)
    (kind : CloseKind) (location : Location) (stop : Nat) :
    Accounted (es ++ [.tagClose id previous kind location, .elementReady id location])
      ⟨d.close id kind stop, ids, new⟩ := by
  have hstate : d.elementState? id = some none := hid
  refine ⟨?_, ?_, ?_, fun i => ?_, fun kind' hk i => ?_, fun i k => ?_⟩
  · rw [Event.replay_append, h.replay_eq]
    simp [Event.replay]
  · -- the two events stand together, and no other closing is among them
    refine Event.closedThenReady_append h.closedThenReady ?_
    intro before after i p k l heq
    cases before with
    | nil => cases heq; exact ⟨_, _, rfl⟩
    | cons e before =>
      cases before with
      | nil => cases heq
      | cons e before => cases before <;> cases heq
  · simpa using h.inner
  · -- closing opens nothing
    have hopened := h.opened i
    simp only at hopened ⊢
    rw [List.countP_append, hopened, Document.elementState?_close]
    by_cases hi : id = i
    · subst hi; simp [Event.concerns, Event.kind]
    · simp [Event.concerns, Event.kind, hi]
  · -- the element was open, so its count goes from zero to one
    have hclosed := h.closed kind' hk i
    simp only at hclosed ⊢
    rw [List.countP_append, hclosed, Document.elementState?_close]
    by_cases hi : id = i
    · subst hi
      obtain rfl | rfl := hk <;> simp [hstate, Event.concerns, Event.kind, Event.target?]
    · obtain rfl | rfl := hk <;> simp [hi, Event.concerns, Event.kind, Event.target?]
  · simp only
    rw [Document.elementState?_close]
    by_cases hi : id = i
    · subst hi
      simp only [hstate, if_pos, Option.map_some, Option.some.injEq]
      rintro rfl
      exact ⟨previous, location, by simp⟩
    · rw [if_neg hi]
      intro hk
      obtain ⟨p, l, hm⟩ := h.kind_mem i k hk
      exact ⟨p, l, List.mem_append_left _ hm⟩

/-- Opening a new element inside the innermost open one. -/
private theorem place {d : Document} {ids : List NodeId} {n : Node}
    (h : Accounted es ⟨d, ids, some n⟩) (hs : (Stage.mk d ids (some n)).Sound) :
    Accounted (es ++ [.tagOpen n.id n.location]) ⟨d.adopt (ids.headD rootId) n,
      n.id :: ids, none⟩ := by
  obtain ⟨tag, location, foreign, void, hn⟩ := hs.upcoming_eq n rfl
  have hid := hs.upcoming_id
  have hnew : n.elementState? = some none := by rw [hn]; rfl
  have hold := d.elementState?_size
  refine ⟨?_, ?_, ?_, fun i => ?_, fun kind hk i => ?_, fun i k => ?_⟩
  · rw [Event.replay_append, h.replay_eq]
    rfl
  · -- no closing is among the new events
    refine Event.closedThenReady_append h.closedThenReady ?_
    intro before after i p k l heq
    cases before with
    | nil => cases heq
    | cons e before => cases before <;> cases heq
  · simpa using h.inner
  · -- the node did not exist, so its count goes from zero to one
    have hopened := h.opened i
    simp only at hopened ⊢
    rw [List.countP_append, hopened, Document.elementState?_adopt hs.head_lt_size, hid]
    by_cases hi : i = d.size
    · subst hi; simp [hold, hnew, Event.concerns, Event.kind, Event.target?]
    · simp [hi, Ne.symm hi, Event.concerns, Event.kind, Event.target?]
  · have hclosed := h.closed kind hk i
    simp only at hclosed ⊢
    rw [List.countP_append, hclosed, Document.elementState?_adopt hs.head_lt_size, hid]
    have hzero : [Event.tagOpen d.size n.location].countP (Event.concerns kind i) = 0 := by
      obtain rfl | rfl := hk <;> simp [Event.concerns, Event.kind]
    rw [hzero]
    by_cases hi : i = d.size
    · subst hi; simp [hold, hnew]
    · simp [hi]
  · simp only
    rw [Document.elementState?_adopt hs.head_lt_size]
    by_cases hi : i = d.size
    · subst hi; simp [hnew]
    · rw [if_neg hi]
      intro hk
      obtain ⟨p, l, hm⟩ := h.kind_mem i k hk
      exact ⟨p, l, List.mem_append_left _ hm⟩

/-- Every move keeps the account. -/
private theorem move (hm : Move s ms t) (hs : s.Sound) (h : Accounted es s) :
    Accounted (es ++ ms.map Moment.event) t := by
  cases hm with
  | remark he => exact h.quiet (by simpa using he.isQuiet) rfl fun _ => rfl
  | store a =>
    exact h.quiet (by simp [Event.IsQuiet]) rfl (Document.elementState?_setAttribute _ _ a)
  | widen l b => exact h.quiet (by simp) rfl (Document.elementState?_widen _ _ l b)
  | @text d ids content location foreign =>
    refine h.quiet (by simp) rfl fun i => ?_
    simp only
    rw [Document.elementState?_adopt hs.head_lt_size]
    split
    · rename_i hi
      rw [hi, d.elementState?_size]
      rfl
    · rfl
  | announce tag location foreign void => exact h.quiet (by simp) rfl fun _ => rfl
  | close location stop hk =>
    exact h.close ((hs.mem_iff _).mp (List.mem_cons_self ..)) _ _ location stop
  | place => exact h.place hs

/-- So does every run. -/
theorem run (hr : Run s ms t) (hs : s.Sound) (h : Accounted es s) :
    Accounted (es ++ ms.map Moment.event) t := by
  induction hr generalizing es with
  | done s => simpa using h
  | move first _ ih =>
    rw [List.map_append, ← List.append_assoc]
    exact ih (hs.move first) (h.move first hs)

end Accounted

/-- The events of making a document, whatever its tokens: they begin with the only `domLoad` and end
with the only `domReady`; in between openings and closings are nested and leave nothing open, every
closing is followed at once by the news that the element is complete, and each element of the
document is opened, closed and complete exactly once, and remembers how it was closed. -/
theorem record_wellNested (v : Vocabulary) (ts : List Token) (length : Nat) :
    let made := Construction.record v ts length
    ∃ inner, made.2.map Moment.event = .domLoad :: inner ++ [.domReady] ∧
      .domLoad ∉ inner ∧ .domReady ∉ inner ∧
      Event.replay inner [] = some [] ∧
      Event.ClosedThenReady inner ∧
      ∀ i n, made.1.get? i = some n → n.isElement = true →
        inner.countP (Event.concerns .tagOpen i) = 1 ∧
        inner.countP (Event.concerns .tagClose i) = 1 ∧
        inner.countP (Event.concerns .elementReady i) = 1 ∧
        ∃ previous kind location, .tagClose i previous kind location ∈ inner ∧
        n.closed = some kind := by
  obtain ⟨ms, d, hrun, hrecord⟩ := Construction.record_run v ts length
  have hs := Stage.Sound.ofLength length
  have hacc := (Accounted.ofLength length).run hrun hs
  have hend := hs.run hrun
  rw [List.nil_append] at hacc
  simp only [hrecord]
  refine ⟨ms.map Moment.event, ?_, hacc.inner.1, hacc.inner.2, hacc.replay_eq,
    hacc.closedThenReady, ?_⟩
  · simp
  · intro i n hn hel
    have hkind : n.kind = .element := by simpa [Node.isElement] using hel
    have hstate : d.elementState? i = some n.closed := by
      rw [← d.elementState?_ended, Document.elementState?_eq_some]
      exact ⟨n, hn, hkind, rfl⟩
    have hopened := hacc.opened i
    have hclosed := hacc.closed _ (.inl rfl) i
    have hready := hacc.closed _ (.inr rfl) i
    -- nothing is open at the end
    cases hc : n.closed with
    | none =>
      rw [hc] at hstate
      exact absurd ((hend.mem_iff i).mpr hstate) (by simp)
    | some kind =>
      rw [hc] at hstate
      obtain ⟨previous, location, hm⟩ := hacc.kind_mem i kind hstate
      simp only [hstate, Option.isSome_some, Option.join_some, if_true] at hopened hclosed hready
      exact ⟨hopened, hclosed, hready, previous, kind, location, hm, rfl⟩

end HtmlLint
