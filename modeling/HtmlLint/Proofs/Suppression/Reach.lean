import HtmlLint.Proofs.Construction.Clock
import HtmlLint.Proofs.Construction.Sequel
import HtmlLint.Proofs.Document.Laminar
import HtmlLint.Suppression

/-!
# What one suppression covers

A suppression learns about its reach one moment at a time, while the document is being made.
`Document.covered?` says what its directive covers in terms of the finished document and the events
after it, and `Suppression.coverage?_after` proves that watching comes to the same.

The proof follows the suppression along the run that is left when its directive comes.  What it
waits for decides the argument: a directive that enables its rule, the end of the element around it,
the end of one element, or the next element.  In the last case the element around it may be closed
first; then no element is opened in it any more (`Run.silent_of_closed`).
-/

namespace HtmlLint

/-! ## Coverage in the finished document -/

namespace Event

/-- Where the event enables a rule, or all rules if none is given: a directive that names no rule
enables all of them. -/
def enablesAt? (rule : Option String) : Event → Option Nat
  | .directive .enable rules _ location =>
    if rules = [] ∨ rule ∈ rules.map (some ·.id) then some location.offset else none
  | _ => none

end Event

/-- The bytes for which a directive inside `parent` disables a rule, or all rules if none is given,
when these are the events after it. -/
def Document.covered? (d : Document) (rule : Option String) (action : DirectiveAction)
    (parent : NodeId) (location : Location) (later : List Event) : Option ByteRange :=
  match action with
  | .enable => none
  | .disable => some ⟨location.stop, (later.findSome? (Event.enablesAt? rule)).getD d.sourceLength⟩
  | .disableBlock =>
    if parent = rootId then some ⟨location.stop, d.sourceLength⟩
    else ((d.get? parent).bind Node.endOffset).map fun stop => ⟨location.stop, stop⟩
  | .disableNext =>
    ((later.findSome? (Event.opensIn? d parent)).or
      (later.findSome? (Event.startedAfter? parent))).bind d.range?

/-- What is disabled other than for the next element is so from the end of the directive on. -/
theorem Document.start_of_covered? {d : Document} {rule : Option String} {action : DirectiveAction}
    {parent : NodeId} {location : Location} {later : List Event} {range : ByteRange}
    (haction : action ≠ .disableNext)
    (h : d.covered? rule action parent location later = some range) :
    range.start = location.stop := by
  cases action with
  | enable => cases h
  | disable => cases h; rfl
  | disableNext => exact absurd rfl haction
  | disableBlock =>
    simp only [covered?] at h
    split at h
    · cases h; rfl
    · obtain ⟨stop, -, rfl⟩ := Option.map_eq_some_iff.mp h
      rfl

/-- The range does not start before byte `low`, end before it starts, or go beyond byte `high`. -/
structure ByteRange.LiesBetween (low high : Nat) (r : ByteRange) : Prop where
  low_le : low ≤ r.start
  start_le : r.start ≤ r.stop
  stop_le : r.stop ≤ high

/-- What starts after a byte starts after every earlier one. -/
theorem ByteRange.LiesBetween.mono {low low' high : Nat} {r : ByteRange}
    (h : r.LiesBetween low' high) (hlow : low ≤ low') : r.LiesBetween low high :=
  ⟨Nat.le_trans hlow h.low_le, h.start_le, h.stop_le⟩

/-- The bytes of a node that starts at byte `low` or later. -/
private theorem Document.IsLaminar.range?_liesBetween {d : Document} {low high i : Nat} {n : Node}
    {r : ByteRange} (h : d.IsLaminar high) (hn : d.get? i = some n) (hlow : low ≤ n.location.offset)
    (hr : d.range? i = some r) : r.LiesBetween low high := by
  obtain ⟨stop, hstop, hlocation, hend⟩ := h.ends hn
  simp only [range?, hn, hstop, Option.bind_some, Option.map_some, Option.some.injEq] at hr
  subst hr
  refine ⟨hlow, ?_, Nat.max_le.mpr ⟨hend, Nat.le_trans hlocation hend⟩⟩
  exact Nat.le_trans (Nat.le_add_right _ _) (Nat.le_max_right _ _)

/-- Rules are enabled by directives only. -/
private theorem Event.enablesAt?_eq_some {rule : Option String} {e : Event} {offset : Nat}
    (h : e.enablesAt? rule = some offset) :
    ∃ rules parent location, e = .directive .enable rules parent location ∧
    location.offset = offset := by
  simp only [enablesAt?] at h
  split at h
  · simp only [Option.ite_none_right_eq_some, Option.some.injEq] at h
    exact ⟨_, _, _, rfl, h.2⟩
  · cases h

/-! ## One suppression -/

namespace Suppression

/-- The suppression after some moments. -/
def after (s : Suppression) (ms : List Moment) : Suppression :=
  ms.foldl observe s

@[simp] theorem after_nil (s : Suppression) : s.after [] = s := rfl

@[simp] theorem after_cons (s : Suppression) (m : Moment) (ms : List Moment) :
    s.after (m :: ms) = (s.observe m).after ms := rfl

/-- A suppression may watch in two parts. -/
private theorem after_append (s : Suppression) (ms later : List Moment) :
    s.after (ms ++ later) = (s.after ms).after later :=
  List.foldl_append ..

/-- Moments change nothing but the reach. -/
theorem after_eq (s : Suppression) (ms : List Moment) :
    s.after ms = { s with reach := (s.after ms).reach } := by
  induction ms generalizing s with
  | nil => rfl
  | cons m ms ih =>
    rw [after_cons, ih (s.observe m)]
    rfl

@[simp] theorem rule_after (s : Suppression) (ms : List Moment) : (s.after ms).rule = s.rule := by
  rw [after_eq]

@[simp] theorem action_after (s : Suppression) (ms : List Moment) :
    (s.after ms).action = s.action := by
  rw [after_eq]

@[simp] theorem location_after (s : Suppression) (ms : List Moment) :
    (s.after ms).location = s.location := by
  rw [after_eq]

/-- What no moment changes, all of them together do not change. -/
private theorem reach_after {s : Suppression} {r : Reach} {ms : List Moment} (hs : s.reach = r)
    (hstep : ∀ m ∈ ms, ∀ s : Suppression, s.reach = r → (s.observe m).reach = r) :
    (s.after ms).reach = r := by
  induction ms generalizing s with
  | nil => exact hs
  | cons m ms ih =>
    exact ih (hstep m (List.mem_cons_self ..) s hs) fun m' hm' =>
      hstep m' (List.mem_cons_of_mem _ hm')

/-- What is settled stays. -/
private theorem reach_after_settled {s : Suppression} {range : Option ByteRange}
    (h : s.reach = .settled range) (ms : List Moment) : (s.after ms).reach = .settled range := by
  refine reach_after h fun m _ s hs => ?_
  simp only [observe, observeReach, hs]
  cases m.event with
  | directive action => cases action <;> rfl
  | tagClose target previous kind => cases previous <;> cases kind <;> rfl
  | _ => rfl

/-- Once the reach is settled, so is the coverage. -/
private theorem coverage?_of_settled {s : Suppression} {range : Option ByteRange}
    (h : s.reach = .settled range) :
    s.coverage? = range := by
  simp only [coverage?, h]

/-! ### Until the rule is enabled -/

/-- A directive ends a suppression if it names its rule, or no rule at all. -/
private theorem isEndedBy_iff (s : Suppression) (rules : List DirectiveRule) :
    s.isEndedBy rules = true ↔ rules = [] ∨ s.rule ∈ rules.map (some ·.id) := by
  cases hr : s.rule with
  | none => simp [isEndedBy, hr]
  | some rule => simp [isEndedBy, hr]

/-- A moment other than the last ends the suppression if it enables its rule, and tells nothing
otherwise. -/
private theorem observe_untilEnabled {s : Suppression} {start : Nat}
    (h : s.reach = .untilEnabled start) {m : Moment} (hm : m.event ≠ .domReady) :
    (s.observe m).reach = match m.event.enablesAt? s.rule with
      | some offset => .settled (some ⟨start, offset⟩)
      | none => .untilEnabled start := by
  simp only [observe, observeReach, h, Event.enablesAt?]
  cases he : m.event with
  | directive action rules parent location =>
    cases action with
    | enable =>
      simp only [isEndedBy_iff]
      split <;> simp_all
    | disable | disableBlock | disableNext => simp
  | domReady => exact absurd he hm
  | domLoad | tagOpen | tagClose | elementReady | attr | doctype | invalidDirective
    | parseError => simp

/-- The first directive that enables the rule ends the suppression, or else the end of the source
does. -/
private theorem coverage?_untilEnabled {s : Suppression} {start : Nat}
    (h : s.reach = .untilEnabled start) {ms : List Moment} (hms : ∀ m ∈ ms, m.event ≠ .domReady)
    (d : Document) :
    (s.after (ms ++ [⟨.domReady, d⟩])).coverage? =
      some ⟨start,
        ((ms.map Moment.event).findSome? (Event.enablesAt? s.rule)).getD d.sourceLength⟩ := by
  induction ms generalizing s with
  | nil => simp [observe, observeReach, h, coverage?]
  | cons m ms ih =>
    have hm := observe_untilEnabled h (hms m (List.mem_cons_self ..))
    simp only [List.cons_append, after_cons, List.map_cons, List.findSome?_cons]
    cases he : m.event.enablesAt? s.rule with
    | some offset =>
      rw [he] at hm
      exact coverage?_of_settled (reach_after_settled hm _)
    | none =>
      rw [he] at hm
      exact ih hm fun m' hm' => hms m' (List.mem_cons_of_mem _ hm')

end Suppression

/-! ## Along a run -/

namespace Suppression

/-- The bytes of an element that is closed are the same for an observer and in the finished
document. -/
private theorem get?_showing_close {d final : Document} {id : Nat} {kind : CloseKind} {stop : Nat}
    (hd : (d.close id kind stop).GrowsTo final) (hid : id < d.size) (new : Option Node) :
    ∃ n stop', ((d.close id kind stop).showing new).get? id = some n ∧ final.get? id = some n ∧
      n.endOffset = some stop' := by
  obtain ⟨m, hm⟩ := Document.exists_get?_of_lt hid
  have hn : (d.close id kind stop).get? id =
      some { m with closed := some kind, endOffset := some (max stop m.location.stop) } := by
    rw [Document.get?_close, if_pos rfl, hm]
    rfl
  refine ⟨_, _, ?_, hd.get?_eq hn (by simp [Node.IsGrowing]), rfl⟩
  cases new with
  | none => exact hn
  | some n =>
    rw [Document.showing, Document.get?_push_of_lt (by rw [Document.size_close]; exact hid), hn]

variable {s t : Stage} {ms : List Moment} {final : Document} {sup : Suppression}

/-! ### Until an element is closed -/

/-- A suppression that waits for the end of an element learns nothing from other moments. -/
private theorem observe_of_not_isEndOf {p : Nat} {r : Reach} {m : Moment}
    (hr : r = .during p ∨ ∃ start, r = .untilClosed p start) (hs : sup.reach = r)
    (hm : m.event ≠ .domReady) (hend : ¬ m.event.IsEndOf p) : (sup.observe m).reach = r := by
  obtain rfl | ⟨start, rfl⟩ := hr
  all_goals
    simp only [observe, observeReach, hs]
    cases he : m.event with
    | domReady => exact absurd he hm
    | elementReady target location =>
      rw [he] at hend
      exact if_neg hend
    | directive action => cases action <;> rfl
    | tagClose target previous kind => cases previous <;> cases kind <;> rfl
    | _ => rfl

/-- The suppression ends with the element around its directive, and that is not before the directive
ends. -/
private theorem reach_untilClosed (hr : Run s ms t) (h : s.Sound) (ht : ∀ id, ¬ t.Awaits id)
    (hd : t.document.GrowsTo final) {p start : Nat} (hp : s.Awaits p)
    (hms : ∀ m ∈ ms, m.NotBefore start) (hs : sup.reach = .untilClosed p start) :
    ∃ n stop, final.get? p = some n ∧ n.endOffset = some stop ∧ start ≤ stop ∧
      (sup.after ms).reach = .settled (some ⟨start, stop⟩) := by
  induction hr generalizing sup with
  | done s => exact absurd hp (ht p)
  | move first rest ih =>
    rw [after_append]
    obtain ⟨hp', hend⟩ | ⟨d, ids, new, kind, location, stop, rfl, rfl, -, rfl⟩ :=
      first.awaits_or_closed h hp
    · exact ih (h.move first) ht hd hp' (fun m hm => hms m (List.mem_append_right _ hm))
        (reach_after hs fun m hm _ hs =>
          observe_of_not_isEndOf (.inr ⟨start, rfl⟩) hs (first.ne_domReady m hm) (hend m hm))
    · -- the element is closed now, and the end it gets is the final one
      have hlt : p < d.size := h.lt_size (List.mem_cons_self ..)
      obtain ⟨n, stop', hshown, hfinal, hstop⟩ :=
        get?_showing_close ((rest.growsTo (h.move first)).trans hd) hlt new
      obtain ⟨n', stop'', hn', hstop'', hle⟩ :=
        hms ⟨.elementReady p location, (d.close p kind stop).showing new⟩ (by simp)
      rw [hshown] at hn'
      cases hn'
      rw [hstop] at hstop''
      cases hstop''
      refine ⟨n, stop', hfinal, hstop, hle, reach_after_settled ?_ _⟩
      simp [observe, observeReach, hs, hshown, hstop, Nat.max_eq_left hle]

/-! ### Over one element -/

/-- The suppression covers the bytes of the element. -/
private theorem reach_during (hr : Run s ms t) (h : s.Sound) (ht : ∀ id, ¬ t.Awaits id)
    (hd : t.document.GrowsTo final) {id : Nat} (hid : s.Awaits id) (hs : sup.reach = .during id) :
    (sup.after ms).reach = .settled (final.range? id) := by
  induction hr generalizing sup with
  | done s => exact absurd hid (ht id)
  | move first rest ih =>
    rw [after_append]
    obtain ⟨hid', hend⟩ | ⟨d, ids, new, kind, location, stop, rfl, rfl, -, rfl⟩ :=
      first.awaits_or_closed h hid
    · exact ih (h.move first) ht hd hid'
        (reach_after hs fun m hm _ hs =>
          observe_of_not_isEndOf (.inl rfl) hs (first.ne_domReady m hm) (hend m hm))
    · have hlt : id < d.size := h.lt_size (List.mem_cons_self ..)
      obtain ⟨n, stop', hshown, hfinal, -⟩ :=
        get?_showing_close ((rest.growsTo (h.move first)).trans hd) hlt new
      refine reach_after_settled ?_ _
      simp [observe, observeReach, hs, Document.range?, hshown, hfinal]

/-! ### Before the next element -/

/-- Other moments tell nothing about the next element. -/
private theorem observe_beforeNext {p : Nat} {m : Moment} (hs : sup.reach = .beforeNext p)
    (hm : m.event ≠ .domReady) (hend : ¬ m.event.IsEndOf p)
    (hopen : m.event.opensIn? m.document p = none) :
    (sup.observe m).reach = .beforeNext p := by
  simp only [observe, observeReach, hs]
  -- four events can end the wait, and each is ruled out
  cases he : m.event with
  | domReady => exact absurd he hm
  | elementReady target location =>
    rw [he] at hend
    exact if_neg hend
  | tagOpen target location =>
    rw [he] at hopen
    simp only [Event.opensIn?, ite_eq_right_iff, reduceCtorEq, imp_false] at hopen
    exact if_neg hopen
  | tagClose target previous kind location =>
    rw [he] at hend
    cases previous with
    | none => rfl
    | some next =>
      cases kind with
      | implicit => exact if_neg hend
      | explicit | selfClosed | void | endOfInput => rfl
  | directive action => cases action <;> rfl
  | _ => rfl

/-- The suppression covers the bytes of the next element, if there is one. -/
private theorem coverage?_beforeNext (hr : Run s ms t) (h : s.Sound) (ht : ∀ id, ¬ t.Awaits id)
    (hd : t.document.GrowsTo final) {p : Nat} (hp : p = rootId ∨ p ∈ s.openElements)
    (hs : sup.reach = .beforeNext p) :
    (sup.after (ms ++ [⟨.domReady, final⟩])).coverage? =
      (((ms.map Moment.event).findSome? (Event.opensIn? final p)).or
        ((ms.map Moment.event).findSome? (Event.startedAfter? p))).bind final.range? := by
  induction hr generalizing sup with
  | done s => simp [observe, observeReach, coverage?, hs]
  | @move s t u ms later first rest ih =>
    have hsound := h.move first
    rw [List.append_assoc, after_append]
    simp only [List.map_append, List.findSome?_append]
    obtain ⟨hp', hquiet⟩ | ⟨d, ids, n, rfl, hhead, rfl, rfl⟩ |
        ⟨d, ids, new, kind, location, stop, rfl, rfl, hkind, rfl⟩ :=
      first.quiet_or_next h ((rest.growsTo hsound).trans hd) hp
    · -- nothing happens that concerns the suppression
      have hopens : (ms.map Moment.event).findSome? (Event.opensIn? final p) = none := by
        simpa using fun m hm => (hquiet m hm).2.2.1
      have hstarted : (ms.map Moment.event).findSome? (Event.startedAfter? p) = none := by
        simpa using fun m hm => (hquiet m hm).2.2.2
      have hreach := reach_after hs fun m hm _ hs =>
        observe_beforeNext hs (first.ne_domReady m hm) (hquiet m hm).1 (hquiet m hm).2.1
      rw [hopens, hstarted, Option.none_or, Option.none_or]
      exact ih hsound ht hd hp' hreach
    · -- the next element comes
      have hopened : (Event.tagOpen n.id n.location).opensIn? final p = some n.id := by
        rw [h.opensIn?_place (hhead ▸ (rest.growsTo hsound).trans hd), if_pos hhead]
      have hshown : (Event.tagOpen n.id n.location).opensIn? (d.adopt p n) p = some n.id := by
        rw [h.opensIn?_place (hhead ▸ .refl _), if_pos hhead]
      have hreach : (sup.after [⟨.tagOpen n.id n.location, d.adopt p n⟩]).reach = .during n.id := by
        simp only [Event.opensIn?, Option.ite_none_right_eq_some] at hshown
        simp [observe, observeReach, hs, hshown.1]
      have hcovers := reach_during rest hsound ht hd (.inl (List.mem_cons_self ..)) hreach
      rw [after_append, coverage?_of_settled (reach_after_settled hcovers _)]
      simp [hopened]
    · -- the element around the directive is closed first, and nothing more is opened in it
      have hmem : p ∈ p :: ids := List.mem_cons_self ..
      have hlt : p < d.size := h.lt_size hmem
      have hnot : p ∉ ids := fun hp => Nat.lt_irrefl _ ((List.pairwise_cons.mp h.decreasing).1 p hp)
      have hsilent := rest.silent_of_closed hsound hd (by simpa using hlt) (h.ne_root hmem) hnot
      have hopens : (later.map Moment.event).findSome? (Event.opensIn? final p) = none := by
        simpa using fun m hm => (hsilent m hm).1
      have hstarted : (later.map Moment.event).findSome? (Event.startedAfter? p) = none := by
        simpa using fun m hm => (hsilent m hm).2
      cases new with
      | none =>
        -- no element comes next, and the suppression covers nothing
        have hreach : (sup.after [⟨.tagClose p none kind location, d.close p kind stop⟩,
            ⟨.elementReady p location, d.close p kind stop⟩]).reach = .settled none := by
          simp [observe, observeReach, hs]
        rw [hopens, hstarted]
        exact coverage?_of_settled (reach_after_settled hreach _)
      | some n =>
        -- the element is ended by a new one, which is the next
        obtain rfl := hkind rfl
        have hne : p ≠ n.id := by
          rw [h.upcoming_id]
          exact Nat.ne_of_lt hlt
        have hreach : (sup.after [
            ⟨.tagClose p (some n.id) .implicit location, (d.close p .implicit stop).push n⟩,
            ⟨.elementReady p location, (d.close p .implicit stop).push n⟩]).reach =
              .during n.id := by
          simp [observe, observeReach, hs, hne]
        rw [hopens, hstarted]
        have hcovers := reach_during rest hsound ht hd (.inr rfl) hreach
        rw [after_append]
        refine (coverage?_of_settled (reach_after_settled hcovers _)).trans ?_
        simp [List.findSome?_cons, Event.opensIn?, Event.startedAfter?]

/-! ### All kinds -/

/-- What a suppression covers in the end is what its directive covers in the finished document. -/
theorem coverage?_after (hr : Run s ms t) (h : s.Sound) (ht : ∀ id, ¬ t.Awaits id)
    (hd : t.document.GrowsTo final) {action : DirectiveAction} {p : Nat} {location : Location}
    (hp : p = rootId ∨ p ∈ s.openElements) (hms : ∀ m ∈ ms, m.NotBefore location.stop)
    (hs : firstReach? action p location = some sup.reach) :
    (sup.after (ms ++ [⟨.domReady, final⟩])).coverage? =
      final.covered? sup.rule action p location (ms.map Moment.event) := by
  cases action with
  | enable => cases hs
  | disable => exact coverage?_untilEnabled (Option.some.inj hs).symm (hr.ne_domReady h) final
  | disableNext => exact coverage?_beforeNext hr h ht hd hp (Option.some.inj hs).symm
  | disableBlock =>
    rw [after_append]
    by_cases hroot : p = rootId
    · -- the root is never closed: the block ends with the document
      subst hroot
      have hreach := reach_after (Option.some.inj hs).symm fun m hm _ hs =>
        observe_of_not_isEndOf (.inr ⟨_, rfl⟩) hs (hr.ne_domReady h m hm)
          (hr.not_isEndOf_root h m hm)
      simp [Document.covered?, observe, observeReach, coverage?, hreach]
    · obtain ⟨n, stop, hn, hstop, -, hreach⟩ :=
        reach_untilClosed hr h ht hd (.inl (hp.resolve_left hroot)) hms (Option.some.inj hs).symm
      rw [coverage?_of_settled (reach_after_settled hreach _)]
      simp [Document.covered?, hroot, hn, hstop]

/-- The next element, whichever way it comes, is opened after the directive. -/
private theorem exists_tagOpen_of_next (hr : Run s ms t) (ht : ∀ id, ¬ t.Awaits id) {p i : Nat}
    (hi : ((ms.map Moment.event).findSome? (Event.opensIn? final p)).or
      ((ms.map Moment.event).findSome? (Event.startedAfter? p)) = some i) :
    ∃ m ∈ ms, ∃ location, m.event = .tagOpen i location := by
  obtain hi | ⟨-, hi⟩ := Option.or_eq_some_iff.mp hi
  all_goals
    obtain ⟨e, he, hnext⟩ := List.exists_of_findSome?_eq_some hi
    obtain ⟨m, hm, rfl⟩ := List.mem_map.mp he
  · simp only [Event.opensIn?] at hnext
    split at hnext
    · rename_i id location hevent
      simp only [Option.ite_none_right_eq_some, Option.some.injEq] at hnext
      exact ⟨m, hm, location, by rw [hevent, hnext.2]⟩
    · cases hnext
  · have hnone : t.upcoming = none := by
      cases hu : t.upcoming with
      | none => rfl
      | some n => exact absurd (.inr (by rw [hu]; rfl)) (ht n.id)
    exact hr.opens_started hnone hm hnext

/-- What a suppression covers starts after its directive and lies within the source. -/
theorem liesBetween_of_coverage? (hr : Run s ms t) (h : s.Sound) (ht : ∀ id, ¬ t.Awaits id)
    (hd : t.document.GrowsTo final) {action : DirectiveAction} {p : Nat} {location : Location}
    (hp : p = rootId ∨ p ∈ s.openElements) (hms : ∀ m ∈ ms, m.NotBefore location.stop)
    (hs : firstReach? action p location = some sup.reach)
    (hlaminar : final.IsLaminar final.sourceLength) (hends : ∀ m ∈ ms, m.EndsBy final.sourceLength)
    (hstop : location.stop ≤ final.sourceLength) {range : ByteRange}
    (hrange : (sup.after (ms ++ [⟨.domReady, final⟩])).coverage? = some range) :
    range.LiesBetween location.stop final.sourceLength := by
  rw [coverage?_after hr h ht hd hp hms hs] at hrange
  cases action with
  | enable => cases hs
  | disable =>
    simp only [Document.covered?, Option.some.injEq] at hrange
    subst hrange
    cases hfound : (ms.map Moment.event).findSome? (Event.enablesAt? sup.rule) with
    | none => exact ⟨Nat.le_refl _, hstop, Nat.le_refl _⟩
    | some offset =>
      -- the directive that enables the rule comes later and lies within the source itself
      obtain ⟨e, he, henables⟩ := List.exists_of_findSome?_eq_some hfound
      obtain ⟨m, hm, rfl⟩ := List.mem_map.mp he
      obtain ⟨rules, parent, location', hevent, rfl⟩ := Event.enablesAt?_eq_some henables
      have hfrom := hms m hm
      have hto := hends m hm
      simp only [Moment.NotBefore, Moment.EndsBy, hevent] at hfrom hto
      exact ⟨Nat.le_refl _, hfrom, Nat.le_trans (Nat.le_add_right _ _) hto.1⟩
  | disableNext =>
    obtain ⟨i, hi, hrange⟩ := Option.bind_eq_some_iff.mp hrange
    obtain ⟨m, hm, location', hevent⟩ := exists_tagOpen_of_next hr ht hi
    obtain ⟨-, n, hn, hoffset⟩ := hr.offset_of_tagOpen h hd hm hevent
    have hfrom := hms m hm
    simp only [Moment.NotBefore, hevent] at hfrom
    exact hlaminar.range?_liesBetween hn (hoffset ▸ hfrom) hrange
  | disableBlock =>
    by_cases hroot : p = rootId
    · simp only [Document.covered?, if_pos hroot, Option.some.injEq] at hrange
      subst hrange
      exact ⟨Nat.le_refl _, hstop, Nat.le_refl _⟩
    · obtain ⟨n, stop, hn, hend, hle, -⟩ :=
        reach_untilClosed hr h ht hd (.inl (hp.resolve_left hroot)) hms (Option.some.inj hs).symm
      simp only [Document.covered?, if_neg hroot, hn, Option.bind_some, hend, Option.map_some,
        Option.some.injEq] at hrange
      subst hrange
      obtain ⟨stop', hend', -, hlast⟩ := hlaminar.ends hn
      obtain rfl : stop = stop' := Option.some.inj (hend.symm.trans hend')
      exact ⟨Nat.le_refl _, hle, hlast⟩

end Suppression

end HtmlLint
