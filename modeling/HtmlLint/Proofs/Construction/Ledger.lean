import HtmlLint.Proofs.Construction.Finality

/-!
# What end tags do

A `Ledger` is an account of events that tells what becomes of each end tag: it closes an element,
after all that is open inside of it (`Ledger.ends`), or it belongs to nothing and is reported
(`Ledger.stray`).  All other events are neutral: they have nothing to do with end tags or with the
end of the source.

Taking in tokens makes such an account, whatever the tokens (`takeIn_ledger`); the step from token
to token is `step_ledger`, and `Token.endTags` says where the end tags are.  The end of the source
then closes what is left (`finish_isLeftover`).  What this means for errors can be read off: where
they are (`Ledger.settle`) and how many there are (`Ledger.countP_isError`,
`IsLeftover.countP_isError`).
-/

namespace HtmlLint

/-! ## End tags and their events -/

/-- The places of the end tags, each from its beginning to its `>`; `waiting` is the place of an end
tag that has begun. -/
def Token.endTags (waiting : Option Location) : List Token → List Location
  | [] => []
  | t :: ts =>
    match t.kind with
    | .tagOpen => endTags (if t.isEndTag then some t.location else none) ts
    | .tagClose => waiting.toList.map (·.extendTo t.location) ++ endTags none ts
    | _ => endTags waiting ts

namespace Event

/-- The event is a structural error. -/
def isError : Event → Bool
  | .parseError .. => true
  | _ => false

/-- The event is an error about the end tag at this place. -/
def complainsAt (l : Location) : Event → Bool
  | .parseError (.unclosedElement _) _ _ => false
  | .parseError _ _ place => place == l
  | _ => false

/-- An element is closed by its end tag, at this place. -/
def endsAt (l : Location) : Event → Bool
  | .tagClose _ _ .explicit place => place == l
  | _ => false

/-- The element of this number is closed in this way, and not by a new element. -/
def isClosing (kind : CloseKind) (id : NodeId) : Event → Bool
  | .tagClose target none how _ => how == kind && target == id
  | _ => false

/-- The event belongs to the end tag at this place: something is closed there, or there is an error
about it. -/
def isOfEndTag (l : Location) : Event → Bool
  | .parseError (.unclosedElement _) _ _ => false
  | .parseError _ _ place => place == l
  | .tagClose _ none .implicit place => place == l
  | .tagClose _ _ .explicit place => place == l
  | _ => false

/-- What the events say about the end tag at a place.  Either it closes one element, and all errors
about it are about elements that are closed there because of it; or it closes nothing, and there is
one error about it. -/
def Settle (l : Location) (es : List Event) : Prop :=
  (es.countP (endsAt l) = 1 ∧
    ∀ e ∈ es, e.complainsAt l = true → ∃ id, e.target? = some id ∧
    .tagClose id none .implicit l ∈ es) ∨
  (es.countP (endsAt l) = 0 ∧ es.countP (complainsAt l) = 1 ∧
    ∀ id, .tagClose id none .implicit l ∉ es)

/-- The event is none that an end tag or the end of the source makes. -/
def IsNeutral : Event → Prop
  | .parseError .. => False
  | .tagClose _ previous kind _ =>
    kind = .void ∨ kind = .selfClosed ∨ kind = .implicit ∧ previous.isSome
  | _ => True

/-- An element is closed in this way that needs an end tag and has none. -/
def lacksEnd (v : Vocabulary) (d : Document) (kind : CloseKind) : Event → Bool
  | .tagClose id none how _ => how == kind && !Construction.hasOptionalEnd v (d.node id)
  | _ => false

end Event

/-- The events of closing an element. -/
def Closing.events (id : NodeId) (how : Closing) : List Event :=
  (how.error.toList.map fun e => .parseError e (some id) how.location) ++
    [.tagClose id how.previous how.kind how.location, .elementReady id how.location]

/-- Without an error there are two events about a closing. -/
private theorem Closing.cases_of_mem_events {id : NodeId} {how : Closing} {e : Event}
    (herror : how.error = none) (he : e ∈ how.events id) :
    e = .tagClose id how.previous how.kind how.location ∨ e = .elementReady id how.location := by
  simpa [events, herror] using he

/-- The events of closing elements one after the other, each in the way that its node in a document
asks for. -/
def closingEvents (how : Node → Closing) (d : Document) (ids : List NodeId) : List Event :=
  ids.flatMap fun id => (how (d.node id)).events id

/-- An account of events: the places of end tags, those of the end tags that belong to nothing, and
the events.  What is known of the elements that are closed is read in a later document. -/
inductive Ledger (v : Vocabulary) (d : Document) : List Location → List Location →
    List Event → Prop where
  | nil : Ledger v d [] [] []
  /-- an event that has nothing to do with end tags -/
  | neutral {tags missed : List Location} {es : List Event} {e : Event} (he : e.IsNeutral)
      (later : Ledger v d tags missed es) : Ledger v d tags missed (e :: es)
  /-- an end tag that belongs to nothing -/
  | stray {tags missed : List Location} {es : List Event} {error : StructuralError}
      (target : Option NodeId)
      (l : Location) (he : ∀ tag, error ≠ .unclosedElement tag)
      (later : Ledger v d tags missed es) :
      Ledger v d (l :: tags) (l :: missed) (.parseError error target l :: es)
  /-- an end tag that closes an element, after those inside of it -/
  | ends {tags missed : List Location} {es : List Event} (name : String) (ids : List NodeId)
      (found : NodeId) (l : Location) (later : Ledger v d tags missed es) :
      Ledger v d (l :: tags) missed
        (closingEvents (Construction.closingInside v name l) d ids ++
          Closing.events found ⟨none, .explicit, none, l, l.stop⟩ ++ es)

/-! ## Elements without end tag -/

section WithoutEnd

variable {v : Vocabulary} {d : Document} {kind : CloseKind} {fault : Node → StructuralError}
  {place : Node → Location} {stop : Nat}

/-- What happens to elements that are closed without an end tag: each is closed, after an error
about it if it needs one. -/
private theorem mem_closingEvents {ids : List NodeId} {e : Event}
    (he : e ∈ closingEvents (Construction.closingWithoutEnd v kind fault place stop) d ids) :
    ∃ id, .tagClose id none kind (place (d.node id)) ∈
        closingEvents (Construction.closingWithoutEnd v kind fault place stop) d ids ∧
      ((e = .parseError (fault (d.node id)) (some id) (place (d.node id)) ∧
          Construction.hasOptionalEnd v (d.node id) = false) ∨
        e = .tagClose id none kind (place (d.node id)) ∨
        e = .elementReady id (place (d.node id))) := by
  obtain ⟨id, hid, he⟩ := List.mem_flatMap.mp he
  refine ⟨id, List.mem_flatMap.mpr ⟨id, hid, ?_⟩, ?_⟩
  · simp [Construction.closingWithoutEnd, Closing.events]
  · unfold Construction.closingWithoutEnd Closing.events at he
    cases hoptional : Construction.hasOptionalEnd v (d.node id) <;>
      simp [hoptional] at he <;> simp [he]

/-- There are as many errors as there are elements that need an end tag. -/
private theorem countP_isError_closingEvents (ids : List NodeId) :
    (closingEvents (Construction.closingWithoutEnd v kind fault place stop) d ids).countP
      Event.isError =
      (closingEvents (Construction.closingWithoutEnd v kind fault place stop) d ids).countP
        (Event.lacksEnd v d kind) := by
  induction ids with
  | nil => rfl
  | cons id ids ih =>
    unfold closingEvents at ih ⊢
    rw [List.flatMap_cons, List.countP_append, List.countP_append, ih]
    unfold Construction.closingWithoutEnd Closing.events
    cases hoptional : Construction.hasOptionalEnd v (d.node id) <;>
      simp [List.countP_cons, Event.isError, Event.lacksEnd, hoptional]

end WithoutEnd

/-! ## What a ledger says -/

namespace Event

/-- A neutral event is no error. -/
private theorem IsNeutral.isError_eq {e : Event} (h : e.IsNeutral) : e.isError = false := by
  cases e with
  | parseError => exact h.elim
  | _ => rfl

/-- Nor does it close an element that lacks an end. -/
private theorem IsNeutral.lacksEnd_eq {e : Event} (h : e.IsNeutral) (v : Vocabulary) (d : Document)
    {kind : CloseKind} (hkind : kind = .implicit ∨ kind = .endOfInput) :
    e.lacksEnd v d kind = false := by
  cases e with
  | tagClose id previous how l =>
    cases previous with
    | some _ => rfl
    | none =>
      -- what is closed by no new element is void or ends in its own start tag
      have hhow : how = .void ∨ how = .selfClosed := by simpa [IsNeutral] using h
      obtain rfl | rfl := hhow <;> obtain rfl | rfl := hkind <;> rfl
  | _ => rfl

/-- Nor does it belong to an end tag. -/
private theorem IsNeutral.isOfEndTag_eq {e : Event} (h : e.IsNeutral) (l : Location) :
    e.isOfEndTag l = false := by
  cases e with
  | parseError => exact h.elim
  | tagClose id previous how place =>
    obtain rfl | rfl | ⟨rfl, hprevious⟩ := h
    · cases previous <;> rfl
    · cases previous <;> rfl
    · cases previous with
      | none => cases hprevious
      | some _ => rfl
  | _ => rfl

/-- An event belongs to one end tag at most. -/
private theorem isOfEndTag_closing {v : Vocabulary} {d : Document} {name : String}
    {ids : List NodeId} {found : NodeId} {l l' : Location} (h : l ≠ l') :
    ∀ e ∈ closingEvents (Construction.closingInside v name l) d ids ++
      Closing.events found ⟨none, .explicit, none, l, l.stop⟩, e.isOfEndTag l' = false := by
  intro e he
  cases List.mem_append.mp he with
  | inl he => obtain ⟨id, -, ⟨rfl, -⟩ | rfl | rfl⟩ := mem_closingEvents he <;> simp [isOfEndTag, h]
  | inr he => obtain rfl | rfl := Closing.cases_of_mem_events rfl he <;> simp [isOfEndTag, h]

/-- What an end tag closes belongs to it. -/
private theorem isOfEndTag_of_endsAt {e : Event} {l : Location} (h : e.endsAt l = true) :
    e.isOfEndTag l = true := by
  cases e with
  | tagClose id previous kind place =>
    cases kind with
    | explicit => cases previous <;> exact h
    | _ => cases h
  | _ => cases h

/-- Where nothing belongs to an end tag, it closes nothing. -/
theorem any_endsAt_eq_false {es : List Event} {l : Location}
    (h : ∀ e ∈ es, e.isOfEndTag l = false) :
    es.any (endsAt l) = false := by
  rw [List.any_eq_false]
  intro e he hends
  have htrue := isOfEndTag_of_endsAt hends
  rw [h e he] at htrue
  cases htrue

/-- What is said about an end tag belongs to it. -/
private theorem isOfEndTag_of_complainsAt {e : Event} {l : Location} (h : e.complainsAt l = true) :
    e.isOfEndTag l = true := by
  cases e with
  | parseError error target place =>
    cases error with
    | unclosedElement => cases h
    | _ => exact h
  | _ => cases h

/-- What is settled about an end tag depends on no event but its own. -/
private theorem Settle.congr {l : Location} {es es' : List Event}
    (heq : es'.filter (isOfEndTag l) = es.filter (isOfEndTag l)) (h : Settle l es) :
    Settle l es' := by
  -- everything the statement counts or looks up is an event of the end tag, which the filter keeps
  have hcount : ∀ p : Event → Bool, (∀ e, p e = true → e.isOfEndTag l = true) →
      es'.countP p = es.countP p := by
    intro p hp
    have hall : ∀ es : List Event, es.countP p = (es.filter (isOfEndTag l)).countP p := by
      intro es
      rw [List.countP_filter]
      apply List.countP_congr
      intro e _
      simp only [Bool.and_eq_true]
      exact ⟨fun he => ⟨he, hp e he⟩, fun he => he.1⟩
    rw [hall es', hall es, heq]
  have hmem : ∀ e : Event, e.isOfEndTag l = true → (e ∈ es' ↔ e ∈ es) := by
    intro e he
    have hiff := congrArg (e ∈ ·) heq
    simpa [List.mem_filter, he] using hiff
  have hswept : ∀ id : NodeId, (tagClose id none .implicit l).isOfEndTag l = true := by
    intro id
    simp [isOfEndTag]
  unfold Settle at h ⊢
  rw [hcount _ fun e => isOfEndTag_of_endsAt, hcount _ fun e => isOfEndTag_of_complainsAt]
  cases h with
  | inl h =>
    refine .inl ⟨h.1, fun e he hcomplains => ?_⟩
    obtain ⟨id, htarget, hid⟩ :=
      h.2 e ((hmem e (isOfEndTag_of_complainsAt hcomplains)).mp he) hcomplains
    exact ⟨id, htarget, (hmem _ (hswept id)).mpr hid⟩
  | inr h => exact .inr ⟨h.1, h.2.1, fun id hid => h.2.2 id ((hmem _ (hswept id)).mp hid)⟩

/-- Earlier events that do not belong to the end tag change nothing about it. -/
private theorem Settle.prepend {l : Location} {es : List Event} (h : Settle l es)
    (before : List Event) (hbefore : ∀ e ∈ before, e.isOfEndTag l = false) :
    Settle l (before ++ es) := by
  apply h.congr
  have hnone : before.filter (isOfEndTag l) = [] :=
    List.filter_eq_nil_iff.mpr fun e he => by simp [hbefore e he]
  rw [List.filter_append, hnone, List.nil_append]

/-- Neither do later ones. -/
theorem Settle.append {l : Location} {es : List Event} (h : Settle l es) (after : List Event)
    (hafter : ∀ e ∈ after, e.isOfEndTag l = false) : Settle l (es ++ after) := by
  apply h.congr
  have hnone : after.filter (isOfEndTag l) = [] :=
    List.filter_eq_nil_iff.mpr fun e he => by simp [hafter e he]
  rw [List.filter_append, hnone, List.append_nil]

/-- An end tag that closes an element, after those inside of it. -/
private theorem settle_closing (v : Vocabulary) (d : Document) (name : String) (ids : List NodeId)
    (found : NodeId) (l : Location) :
    Settle l (closingEvents (Construction.closingInside v name l) d ids ++
      Closing.events found ⟨none, .explicit, none, l, l.stop⟩) := by
  have hinner : (closingEvents (Construction.closingInside v name l) d ids).countP
      (endsAt l) = 0 := by
    rw [List.countP_eq_zero]
    intro e he
    obtain ⟨id, -, ⟨rfl, -⟩ | rfl | rfl⟩ := mem_closingEvents he <;> simp [endsAt]
  refine .inl ⟨?_, fun e he hcomplains => ?_⟩
  · rw [List.countP_append, hinner]
    simp [Closing.events, endsAt]
  · cases List.mem_append.mp he with
    | inl he =>
      obtain ⟨id, hid, ⟨rfl, -⟩ | rfl | rfl⟩ := mem_closingEvents he
      · exact ⟨id, rfl, List.mem_append_left _ hid⟩
      · cases hcomplains
      · cases hcomplains
    | inr he => obtain rfl | rfl := Closing.cases_of_mem_events rfl he <;> cases hcomplains

end Event

namespace Ledger

variable {v : Vocabulary} {d : Document} {tags missed : List Location} {es es' : List Event}

/-- Events that have nothing to do with end tags may come first. -/
private theorem neutrals (h : Ledger v d tags missed es) (hes : ∀ e ∈ es', e.IsNeutral) :
    Ledger v d tags missed (es' ++ es) := by
  induction es' with
  | nil => exact h
  | cons e es' ih =>
    apply Ledger.neutral (hes e (List.mem_cons_self ..))
    exact ih fun e he => hes e (List.mem_cons_of_mem _ he)

/-- As long as the source goes on, there is an error for each element that is closed by the end tag
of another one and needs its own, and for each end tag that belongs to nothing. -/
theorem countP_isError (h : Ledger v d tags missed es) :
    es.countP Event.isError = es.countP (Event.lacksEnd v d .implicit) + missed.length := by
  induction h with
  | nil => rfl
  | neutral he _ ih =>
    simp only [List.countP_cons, he.isError_eq, he.lacksEnd_eq v d (.inl rfl), ih]
    omega
  | stray target l _ _ ih =>
    simp only [List.countP_cons, ih, Event.isError, Event.lacksEnd, List.length_cons]
    simp only [if_true, Bool.false_eq_true, if_false]
    omega
  | ends name ids found l _ ih =>
    -- inside, every error comes with a closing that lacks its end tag; the found element has its
    -- own
    have hinner : (closingEvents (Construction.closingInside v name l) d ids).countP Event.isError =
        (closingEvents (Construction.closingInside v name l) d ids).countP
          (Event.lacksEnd v d .implicit) :=
      countP_isError_closingEvents ids
    have houter : (Closing.events found ⟨none, .explicit, none, l, l.stop⟩).countP
        Event.isError = 0 := rfl
    have houter' : (Closing.events found ⟨none, .explicit, none, l, l.stop⟩).countP
        (Event.lacksEnd v d .implicit) = 0 := rfl
    rw [List.countP_append, List.countP_append, List.countP_append, List.countP_append, ih, hinner,
      houter, houter']
    omega

/-- Nothing is closed by the end of the source before it is reached. -/
theorem not_endOfInput (h : Ledger v d tags missed es) :
    ∀ e ∈ es, (∀ tag target l, e ≠ .parseError (.unclosedElement tag) target l) ∧
      ∀ id previous l, e ≠ .tagClose id previous .endOfInput l := by
  induction h with
  | nil => simp
  | neutral he _ ih =>
    rw [List.forall_mem_cons]
    refine ⟨⟨?_, ?_⟩, ih⟩
    · rintro tag target l rfl
      exact he
    · rintro id previous l rfl
      simp [Event.IsNeutral] at he
  | stray target l he _ ih =>
    rw [List.forall_mem_cons]
    refine ⟨⟨?_, by simp⟩, ih⟩
    intro tag target l heq
    cases heq
    exact he tag rfl
  | ends name ids found l _ ih =>
    intro e he
    cases List.mem_append.mp he with
    | inr he => exact ih e he
    | inl he =>
      cases List.mem_append.mp he with
      | inl he => obtain ⟨id, -, ⟨rfl, -⟩ | rfl | rfl⟩ := mem_closingEvents he <;> simp
      | inr he => obtain rfl | rfl := Closing.cases_of_mem_events rfl he <;> simp

/-- No event belongs to an end tag where there is none. -/
private theorem isOfEndTag_eq_false (h : Ledger v d tags missed es) {l : Location} (hl : l ∉ tags) :
    ∀ e ∈ es, e.isOfEndTag l = false := by
  induction h with
  | nil => simp
  | neutral he _ ih =>
    rw [List.forall_mem_cons]
    exact ⟨he.isOfEndTag_eq l, ih hl⟩
  | @stray _ _ _ error target l' he _ ih =>
    rw [List.mem_cons, not_or] at hl
    rw [List.forall_mem_cons]
    refine ⟨?_, ih hl.2⟩
    cases error <;> simp [Event.isOfEndTag, Ne.symm hl.1]
  | ends name ids found l' _ ih =>
    rw [List.mem_cons, not_or] at hl
    intro e he
    cases List.mem_append.mp he with
    | inl he => exact Event.isOfEndTag_closing (Ne.symm hl.1) e he
    | inr he => exact ih hl.2 e he

/-- If no two end tags are at the same place, each of them is settled. -/
theorem settle (h : Ledger v d tags missed es) (hnodup : tags.Nodup) {l : Location}
    (hl : l ∈ tags) :
    Event.Settle l es := by
  induction h with
  | nil => cases hl
  | @neutral _ _ es e he _ ih =>
    exact (ih hnodup hl).prepend [e] (by simpa using he.isOfEndTag_eq l)
  | @stray _ _ es error target l' he later ih =>
    obtain ⟨hnot, hnodup⟩ := List.nodup_cons.mp hnodup
    by_cases heq : l = l'
    · subst heq
      -- its own error is all that is said of it, since no later tag has this place
      have hstray : Event.Settle l [.parseError error target l] := by
        refine .inr ⟨rfl, ?_, by simp⟩
        cases error with
        | unclosedElement tag => exact absurd rfl (he tag)
        | _ => simp [Event.complainsAt]
      exact hstray.append es (later.isOfEndTag_eq_false hnot)
    · -- the error is about another end tag
      apply (ih hnodup ((List.mem_cons.mp hl).resolve_left heq)).prepend
        [.parseError error target l']
      cases error <;> simp [Event.isOfEndTag, Ne.symm heq]
  | ends name ids found l' later ih =>
    obtain ⟨hnot, hnodup⟩ := List.nodup_cons.mp hnodup
    by_cases heq : l = l'
    · subst heq
      exact (Event.settle_closing v d name ids found l).append _ (later.isOfEndTag_eq_false hnot)
    · exact (ih hnodup ((List.mem_cons.mp hl).resolve_left heq)).prepend _
        (Event.isOfEndTag_closing (Ne.symm heq))

/-- The end tags that belong to nothing are those that close nothing. -/
theorem countP_not_endsAt (h : Ledger v d tags missed es) (hnodup : tags.Nodup) :
    tags.countP (fun l => !es.any (Event.endsAt l)) = missed.length := by
  induction h with
  | nil => rfl
  | @neutral tags _ es e he _ ih =>
    rw [← ih hnodup]
    apply List.countP_congr
    intro l _
    have hnot : e.endsAt l = false := by
      have hnone : [e].any (Event.endsAt l) = false :=
        Event.any_endsAt_eq_false (by simpa using he.isOfEndTag_eq l)
      simpa using hnone
    rw [List.any_cons, hnot, Bool.false_or]
  | stray target l' he later ih =>
    obtain ⟨hnot, hnodup⟩ := List.nodup_cons.mp hnodup
    rw [List.countP_cons, List.length_cons, ← ih hnodup]
    -- nothing later has the place of the missed tag, so it is counted
    simp [Event.endsAt, Event.any_endsAt_eq_false (later.isOfEndTag_eq_false hnot)]
  | @ends tags _ es name ids found l' later ih =>
    obtain ⟨hnot, hnodup⟩ := List.nodup_cons.mp hnodup
    -- the closing of the found element ends this tag, and no other tag is ended here
    have hhere : (closingEvents (Construction.closingInside v name l') d ids ++
        Closing.events found ⟨none, .explicit, none, l', l'.stop⟩).any
          (Event.endsAt l') = true := by
      rw [List.any_append]
      simp [Closing.events, Event.endsAt]
    have hrest :
        tags.countP (fun l => !(closingEvents (Construction.closingInside v name l') d ids ++
        Closing.events found ⟨none, .explicit, none, l', l'.stop⟩ ++ es).any (Event.endsAt l)) =
          tags.countP fun l => !es.any (Event.endsAt l) := by
      apply List.countP_congr
      intro l hl
      have hne : l' ≠ l := fun heq => hnot (heq ▸ hl)
      rw [List.any_append, Event.any_endsAt_eq_false (Event.isOfEndTag_closing hne), Bool.false_or]
    rw [List.countP_cons, hrest, ih hnodup, List.any_append, hhere]
    rfl

end Ledger

/-! ## What the end of the source does -/

/-- The events are those of ending a document: what is left is closed. -/
def IsLeftover (v : Vocabulary) (d : Document) (es : List Event) : Prop :=
  ∃ before stop ids, (∀ e ∈ before, e.IsNeutral) ∧
    es = before ++ closingEvents (Construction.closingAtEnd v stop) d ids ++ [.domReady]

namespace IsLeftover

variable {v : Vocabulary} {d : Document} {es : List Event}

/-- An event is the closing of an element, or an error about an element that is closed. -/
theorem cases_of_mem (h : IsLeftover v d es) {e : Event} (he : e ∈ es) :
    e.IsNeutral ∨ ∃ id, .tagClose id none .endOfInput (d.node id).location ∈ es ∧
      ((e = .parseError (.unclosedElement (d.node id).tag) (some id) (d.node id).location ∧
          Construction.hasOptionalEnd v (d.node id) = false) ∨
        e = .tagClose id none .endOfInput (d.node id).location) := by
  obtain ⟨before, stop, ids, hbefore, rfl⟩ := h
  simp only [List.mem_append, List.mem_singleton] at he
  obtain (he | he) | rfl := he
  · exact .inl (hbefore e he)
  · obtain ⟨id, hid, hevent⟩ := mem_closingEvents he
    have hclosing : .tagClose id none .endOfInput (d.node id).location ∈
        before ++ closingEvents (Construction.closingAtEnd v stop) d ids ++ [.domReady] :=
      List.mem_append_left _ (List.mem_append_right _ hid)
    obtain herror | hclose | rfl := hevent
    · exact .inr ⟨id, hclosing, .inl herror⟩
    · exact .inr ⟨id, hclosing, .inr hclose⟩
    · exact .inl trivial
  · exact .inl trivial

/-- What the end of the source does belongs to no end tag. -/
theorem isOfEndTag_eq_false (h : IsLeftover v d es) (l : Location) :
    ∀ e ∈ es, e.isOfEndTag l = false := by
  intro e he
  obtain hneutral | ⟨id, -, ⟨rfl, -⟩ | rfl⟩ := h.cases_of_mem he
  · exact hneutral.isOfEndTag_eq l
  · rfl
  · rfl

/-- There is an error for each element that needs an end tag. -/
theorem countP_isError (h : IsLeftover v d es) :
    es.countP Event.isError = es.countP (Event.lacksEnd v d .endOfInput) := by
  obtain ⟨before, stop, ids, hbefore, rfl⟩ := h
  have hnone : ∀ {p : Event → Bool}, (∀ e : Event, e.IsNeutral → p e = false) →
      before.countP p = 0 := by
    intro p hp
    rw [List.countP_eq_zero]
    intro e he
    rw [hp e (hbefore e he)]
    simp
  have hmiddle : (closingEvents (Construction.closingAtEnd v stop) d ids).countP Event.isError =
      (closingEvents (Construction.closingAtEnd v stop) d ids).countP
        (Event.lacksEnd v d .endOfInput) :=
    countP_isError_closingEvents ids
  rw [List.countP_append, List.countP_append, List.countP_append, List.countP_append,
    hnone fun e he => he.isError_eq, hnone fun e he => he.lacksEnd_eq v d (.inr rfl), hmiddle]
  rfl

/-- Nothing is closed implicitly at the end of the source. -/
theorem countP_lacksEnd (h : IsLeftover v d es) : es.countP (Event.lacksEnd v d .implicit) = 0 := by
  rw [List.countP_eq_zero]
  intro e he
  obtain hneutral | ⟨id, -, ⟨rfl, -⟩ | rfl⟩ := h.cases_of_mem he
  · simp [hneutral.lacksEnd_eq v d (.inl rfl)]
  · simp [Event.lacksEnd]
  · simp [Event.lacksEnd]

end IsLeftover

/-! ## Closing elements -/

/-- Nodes that differ only in their ends resemble each other. -/
theorem Node.SameButEnd.resembles {n n' : Node} (h : n.SameButEnd n') : n.Resembles n' := by
  rw [h]
  exact ⟨rfl, rfl, rfl, rfl⟩

namespace Construction

variable {v : Vocabulary} {c : Construction} {d : Document}

/-- The events of closing elements depend only on how each of them is closed. -/
private theorem closingEvents_congr {how : Node → Closing} {d d' : Document} {ids : List NodeId}
    (h : ∀ id ∈ ids, how (d.node id) = how (d'.node id)) :
    closingEvents how d ids = closingEvents how d' ids := by
  unfold closingEvents
  rw [List.flatMap_def, List.flatMap_def]
  congr 1
  apply List.map_congr_left
  intro id hid
  rw [h id hid]

/-- The events of closing elements, if nothing that is closed before changes how the next one is
closed. -/
theorem closeAll_events {how : Node → Closing}
    (hhow : ∀ n n' : Node, n.SameButEnd n' → how n' = how n) (ids : List NodeId) (d : Document) :
    (closeAll how ids d).2.map Moment.event = closingEvents how d ids := by
  induction ids generalizing d with
  | nil => rfl
  | cons id ids ih =>
    have hfirst : (closeOne id (how (d.node id)) d).2.map Moment.event =
        (how (d.node id)).events id := by
      simp [closeOne, Closing.events, Function.comp_def]
    have hlater : closingEvents how (closeOne id (how (d.node id)) d).1 ids =
        closingEvents how d ids :=
      closingEvents_congr fun i _ => hhow _ _ ((closeOne_matches id (how (d.node id)) d).node i)
    show ((closeOne id (how (d.node id)) d).2 ++ _).map Moment.event = _
    rw [List.map_append, hfirst, ih, hlater]
    rfl

/-- Whether the end tag may be left out is known from the start on. -/
private theorem hasOptionalEnd_eq {n n' : Node} (h : n.Resembles n') :
    hasOptionalEnd v n = hasOptionalEnd v n' := by
  unfold hasOptionalEnd
  rw [h.modelOf?_eq]

/-- How an element inside is closed is known from the start on. -/
theorem closingInside_eq {n n' : Node} (h : n.Resembles n') (name : String) (l : Location) :
    closingInside v name l n' = closingInside v name l n := by
  simp only [closingInside, closingWithoutEnd, hasOptionalEnd_eq h, h.tag_eq]

/-- How an element is closed at the end does not depend on where it ends. -/
private theorem closingAtEnd_eq {n n' : Node} (h : n.SameButEnd n') (stop : Nat) :
    closingAtEnd v stop n' = closingAtEnd v stop n := by
  unfold closingAtEnd closingWithoutEnd
  rw [hasOptionalEnd_eq h.resembles, h]

/-! ## One token -/

/-- The place of the end tag that has begun. -/
def endTag? (c : Construction) : Option Location :=
  match c.pending with
  | some (.closing _ l) => some l
  | _ => none

/-- Storing an attribute does not change which end tag is being read. -/
private theorem endTag?_storeLast (value : Option Token) (c : Construction) :
    (c.storeLast value).1.endTag? = c.endTag? := by
  unfold storeLast
  split
  · rename_i hp
    simp only [endTag?, hp]
  · rfl

/-- Neither does remembering one. -/
private theorem endTag?_expectValue (t : Token) (c : Construction) :
    (c.expectValue t).endTag? = c.endTag? := by
  unfold expectValue
  split
  · rename_i hp
    simp only [endTag?, hp]
  · rfl

/-- An attribute is neutral. -/
private theorem storeLast_isNeutral (value : Option Token) (c : Construction) :
    ∀ e ∈ (c.storeLast value).2.map Moment.event, e.IsNeutral := by
  unfold storeLast
  split <;> simp [Event.IsNeutral]

/-- What a start tag does is neutral: it closes elements, but reports nothing. -/
private theorem openTag_isNeutral (v : Vocabulary) (t : Token) (c : Construction) :
    ∀ e ∈ (c.openTag v t).2.map Moment.event, e.IsNeutral := by
  intro e he
  have hclosings : ∀ ids d, (closeAll (closingBefore t c.document.size) ids d).2.map Moment.event =
      closingEvents (closingBefore t c.document.size) d ids :=
    closeAll_events fun _ _ _ => rfl
  rw [openTag_eq] at he
  simp only [List.map_append, hclosings] at he
  cases List.mem_append.mp he with
  | inl he =>
    obtain ⟨id, -, he⟩ := List.mem_flatMap.mp he
    -- what a start tag ends is closed by the new element
    obtain rfl | rfl := Closing.cases_of_mem_events rfl he <;> simp [closingBefore, Event.IsNeutral]
  | inr he =>
    rw [List.mem_singleton.mp he]
    trivial

/-- So is what the end of a start tag does. -/
private theorem finishOpening_isNeutral (node : NodeId) (t : Token) (c : Construction) :
    ∀ e ∈ (c.finishOpening node t).2.map Moment.event, e.IsNeutral := by
  simp only [finishOpening_eq]
  split
  · split
    · simp only [closeOne]
      split <;> simp [Event.IsNeutral]
    · simp
  · simp

/-- So is the end of a tag that is no end tag. -/
private theorem finishTag_isNeutral (h : c.endTag? = none) (v : Vocabulary) (t : Token) :
    ∀ e ∈ (c.finishTag v t).2.map Moment.event, e.IsNeutral := by
  rw [finishTag_eq]
  split
  · exact finishOpening_isNeutral _ t c
  · rename_i hp
    simp [endTag?, hp] at h
  · simp

/-- An end tag settles itself: it closes an element, after those inside of it, or is an error. -/
private theorem closeTag_ledger (hfuture : c.document.Foreshadows d) (hsound : c.stage.Sound)
    (name : String) (l : Location) {tags missed : List Location} {es : List Event}
    (h : Ledger v d tags missed es) :
    ∃ missed', Ledger v d (l :: tags) missed' ((c.closeTag v name l).2.map Moment.event ++ es) := by
  cases hfound : c.openElements.dropWhile fun id => !isCalled name (c.document.node id) with
  | nil =>
    simp only [closeTag_eq, hfound]
    -- a mismatch is never said to be an unclosed element
    refine ⟨l :: missed, Ledger.stray _ l ?_ h⟩
    intro tag
    unfold mismatch
    split
    · simp
    · split <;> simp
  | cons found left =>
    rw [closeTag_of_found hfound]
    have hids : ∀ id ∈ c.openElements.takeWhile fun id => !isCalled name (c.document.node id),
        id < c.document.size := fun id hid => hsound.lt_size ((List.takeWhile_sublist _).subset hid)
    generalize c.openElements.takeWhile
      (fun id => !isCalled name (c.document.node id)) = ids at hids
    -- the errors are worded by the nodes as they are now, which is how they are in the final
    -- document
    have hinner : (closeAll (closingInside v name l) ids c.document).2.map Moment.event =
        closingEvents (closingInside v name l) d ids := by
      rw [closeAll_events fun n n' hn => closingInside_eq hn.resembles name l]
      apply closingEvents_congr
      intro id hid
      obtain ⟨n, hn⟩ := Document.exists_get?_of_lt (hids id hid)
      obtain ⟨n', hn', hlike⟩ := hfuture id n hn
      rw [Document.node_of_get? hn, Document.node_of_get? hn', closingInside_eq hlike]
    refine ⟨missed, ?_⟩
    have hends := Ledger.ends name ids found l h
    rw [← hinner] at hends
    simpa [closeOne, Closing.events] using hends

/-- One token: an end tag that ends with it is settled, and nothing else is said about end tags. -/
theorem step_ledger (h : c.Ready) (hfuture : c.document.Foreshadows d) (t : Token) {ts : List Token}
    {missed : List Location} {es : List Event}
    (hlater : Ledger v d (Token.endTags (c.step v t).1.endTag? ts) missed es) :
    ∃ missed', Ledger v d (Token.endTags c.endTag? (t :: ts)) missed'
      ((c.step v t).2.map Moment.event ++ es) := by
  cases hkind : t.kind with
  | tagOpen =>
    simp only [step_eq, hkind, Token.endTags] at hlater ⊢
    split at hlater
    · rename_i hend
      rw [if_pos hend, if_pos hend]
      exact ⟨missed, hlater⟩
    · rename_i hstart
      rw [if_neg hstart, if_neg hstart]
      exact ⟨missed, hlater.neutrals (openTag_isNeutral v t c)⟩
  | attrName =>
    simp only [step_eq, hkind, Token.endTags, endTag?_expectValue, endTag?_storeLast] at hlater ⊢
    exact ⟨missed, hlater.neutrals (storeLast_isNeutral none c)⟩
  | attrValue =>
    simp only [step_eq, hkind, Token.endTags, endTag?_storeLast] at hlater ⊢
    exact ⟨missed, hlater.neutrals (storeLast_isNeutral (some t) c)⟩
  | tagClose =>
    simp only [step_eq, hkind, Token.endTags] at hlater ⊢
    have hafter : ((c.storeLast none).1.finishTag v t).1.endTag? = none := by
      simp only [endTag?, pending_finishTag]
    rw [hafter] at hlater
    cases hp : c.pending with
    | some tag =>
      cases tag with
      | closing name l =>
        -- the end tag that has begun is complete
        have hstore : c.storeLast none = (c, []) := by simp only [storeLast, hp]
        have htag : c.endTag? = some l := by simp only [endTag?, hp]
        rw [hstore, htag]
        simp only [finishTag_eq, hp]
        exact closeTag_ledger (c := { c with pending := none }) hfuture h.sound name _ hlater
      | opening id last =>
        have htag : c.endTag? = none := by simp only [endTag?, hp]
        rw [htag, List.map_append, List.append_assoc]
        refine ⟨missed,
          (hlater.neutrals (finishTag_isNeutral ?_ v t)).neutrals (storeLast_isNeutral none c)⟩
        rw [endTag?_storeLast, htag]
    | none =>
      have hstore : c.storeLast none = (c, []) := by simp only [storeLast, hp]
      have htag : c.endTag? = none := by simp only [endTag?, hp]
      rw [hstore, htag]
      simp only [finishTag_eq, hp]
      exact ⟨missed, hlater⟩
  | text =>
    simp only [step_eq, hkind, Token.endTags] at hlater ⊢
    exact ⟨missed, hlater⟩
  | comment =>
    simp only [step_eq, hkind, Token.endTags] at hlater ⊢
    refine ⟨missed, hlater.neutrals ?_⟩
    cases hevent : Directive.event? t c.current with
    | none => simp
    | some e =>
      have hdirective := Directive.kind_of_event? hevent
      cases e <;> simp_all [Event.kind, Event.IsNeutral]
  | doctype =>
    simp only [step_eq, hkind, Token.endTags] at hlater ⊢
    exact ⟨missed, hlater.neutrals (by simp [Event.IsNeutral])⟩

/-! ## All tokens -/

/-- Taking in tokens makes an account of the end tags. -/
theorem takeIn_ledger (h : c.Ready) (ts : List Token)
    (hfuture : (takeIn v ts c).1.document.Foreshadows d) :
    ∃ missed, Ledger v d (Token.endTags c.endTag? ts) missed
      ((takeIn v ts c).2.map Moment.event) := by
  induction ts generalizing c with
  | nil => exact ⟨[], .nil⟩
  | cons t ts ih =>
    have hready := h.start.step v t
    obtain ⟨missed, hlater⟩ := ih hready hfuture
    -- every node of now is seen in the final document, through the rest of the tokens
    have hstart : c.start.1.document.Foreshadows d :=
      ((step_run (v := v) h.start t).foreshadows h.start.sound).trans
        ((takeIn_foreshadows hready ts).trans hfuture)
    obtain ⟨missed', hstep⟩ := step_ledger h.start hstart t hlater
    have htag : c.start.1.endTag? = c.endTag? := by
      unfold start
      split <;> rfl
    have hfirst : ∀ e ∈ c.start.2.map Moment.event, e.IsNeutral := by
      unfold start
      split <;> simp [Event.IsNeutral]
    rw [htag] at hstep
    refine ⟨missed', ?_⟩
    have hall := hstep.neutrals hfirst
    simp only [takeIn, push_eq, List.map_append, List.append_assoc]
    exact hall

/-- The end of the source closes what is left. -/
theorem finish_isLeftover (v : Vocabulary) (c : Construction) :
    c.document.Foreshadows (c.finish v).1 ∧
    IsLeftover v (c.finish v).1 ((c.finish v).2.map Moment.event) := by
  obtain ⟨hdocument, hopen, hneutral⟩ : c.start.1.document = c.document ∧
      c.start.1.openElements = c.openElements ∧ ∀ e ∈ c.start.2.map Moment.event, e.IsNeutral := by
    unfold start
    split <;> simp [Event.IsNeutral]
  -- the document that is left is the one before, but for how and where its nodes end
  have hmatches : c.document.Matches Node.SameButEnd (c.finish v).1 := by
    simp only [finish_eq, hdocument, hopen]
    exact (closeAll_matches _ _ _).trans Node.SameButEnd.trans (.modify .refl fun _ => rfl)
  constructor
  · intro i n hn
    obtain ⟨n', hn', hlike⟩ := hmatches.get? i n hn
    exact ⟨n', hn', hlike.resembles⟩
  · refine ⟨c.start.2.map Moment.event, c.document.sourceLength, c.openElements, hneutral, ?_⟩
    have hclosings :
        (closeAll (closingAtEnd v c.document.sourceLength) c.openElements c.document).2.map
          Moment.event =
        closingEvents (closingAtEnd v c.document.sourceLength) c.document c.openElements :=
      closeAll_events (fun n n' hn => closingAtEnd_eq hn _) c.openElements c.document
    rw [closingEvents_congr fun id _ => (closingAtEnd_eq (hmatches.node id) _).symm] at hclosings
    rw [← hclosings]
    simp only [finish_eq, hdocument, hopen, List.map_append, List.map_cons, List.map_nil]

/-- The events of making a document are an account of the end tags, and then what the end of the
source does. -/
theorem record_ledger (v : Vocabulary) (ts : List Token) (length : Nat) :
    ∃ missed es rest, (record v ts length).2.map Moment.event = es ++ rest ∧
      Ledger v (record v ts length).1 (Token.endTags none ts) missed es ∧
      IsLeftover v (record v ts length).1 rest := by
  rw [record_eq]
  obtain ⟨hfuture, hrest⟩ := finish_isLeftover v (takeIn v ts (ofLength length)).1
  obtain ⟨missed, hledger⟩ := takeIn_ledger (Ready.ofLength length) ts hfuture
  exact ⟨missed, _, _, List.map_append, hledger, hrest⟩

end Construction

end HtmlLint
