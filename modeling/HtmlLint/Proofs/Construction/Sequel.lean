import HtmlLint.Proofs.Construction.Growth

/-!
# What comes later in a run

An observer that remembers an element waits for events about it: that it is closed, that an element
is opened in it, or that the start tag of another one closes it.  The lemmas here say when these
events come.  An element that is open or upcoming is closed before the run ends
(`Move.awaits_or_closed`); one that is closed is silent from then on (`Run.silent_of_closed`); and
an element whose start tag closes another one is opened itself (`Run.opens_started`), where it is
found in the finished document (`Run.offset_of_tagOpen`).
-/

namespace HtmlLint

/-! ## Events about an element -/

namespace Event

/-- The element that the event opens as a child of `parent`. -/
def opensIn? (d : Document) (parent : NodeId) : Event → Option NodeId
  | .tagOpen id _ => if (d.get? id).bind Node.parent = some parent then some id else none
  | _ => none

/-- The new element whose start tag closes `parent`. -/
def startedAfter? (parent : NodeId) : Event → Option NodeId
  | .tagClose id (some next) .implicit _ => if id = parent then some next else none
  | _ => none

/-- The event closes the element, or tells that it is complete. -/
def IsEndOf (id : NodeId) : Event → Prop
  | .tagClose target _ _ _ => target = id
  | .elementReady target _ => target = id
  | _ => False

/-- Only the end of a node hands on to the element that ends it. -/
private theorem startedAfter?_of_not_isEndOf {p : NodeId} {e : Event} (h : ¬ e.IsEndOf p) :
    e.startedAfter? p = none := by
  simp only [startedAfter?]
  split
  · exact if_neg h
  · rfl

/-- A remark is about no element. -/
private theorem IsRemark.about_none {current : NodeId} {e : Event} (h : e.IsRemark current)
    (d : Document) (id : NodeId) :
    e ≠ .domReady ∧ ¬ e.IsEndOf id ∧ e.opensIn? d id = none ∧ e.startedAfter? id = none := by
  cases e with
  | parseError | doctype | invalidDirective | directive => exact ⟨by simp, not_false, rfl, rfl⟩
  | domLoad | tagOpen | tagClose | elementReady | attr | domReady => exact h.elim

end Event

/-! ## Moves and runs -/

/-- The element is open, or is made and has no place yet. -/
def Stage.Awaits (s : Stage) (id : NodeId) : Prop :=
  id ∈ s.openElements ∨ s.upcoming.map Node.id = some id

/-- No move shows the last event. -/
theorem Move.ne_domReady {s t : Stage} {ms : List Moment} (hm : Move s ms t) :
    ∀ m ∈ ms, m.event ≠ .domReady := by
  cases hm with
  | @remark d ids e he => simpa using (he.about_none d rootId).1
  | store | widen | text | announce | close | place => simp

/-- What holds of the moments of every move holds of those of every run. -/
private theorem Run.forall_mem {P : Moment → Prop}
    (hmove : ∀ {s t : Stage} {ms : List Moment}, Move s ms t → s.Sound → ∀ m ∈ ms, P m)
    {s t : Stage} {ms : List Moment} (hr : Run s ms t) (h : s.Sound) : ∀ m ∈ ms, P m := by
  induction hr with
  | done s => simp
  | move first _ ih =>
    intro m hm
    exact (List.mem_append.mp hm).elim (hmove first h m) (ih (h.move first) m)

/-- So no run does. -/
theorem Run.ne_domReady {s t : Stage} {ms : List Moment} (hr : Run s ms t) (h : s.Sound) :
    ∀ m ∈ ms, m.event ≠ .domReady :=
  hr.forall_mem (fun hm _ => hm.ne_domReady) h

/-- No move closes the root. -/
private theorem Move.not_isEndOf_root {s t : Stage} {ms : List Moment} (hm : Move s ms t)
    (h : s.Sound) :
    ∀ m ∈ ms, ¬ m.event.IsEndOf rootId := by
  cases hm with
  | @remark d ids e he => simpa using (he.about_none d rootId).2.1
  | close =>
    have hid := h.ne_root (List.mem_cons_self ..)
    simpa [Event.IsEndOf] using hid
  | store | widen | text | announce | place => simp [Event.IsEndOf]

/-- The root is never closed. -/
theorem Run.not_isEndOf_root {s t : Stage} {ms : List Moment} (hr : Run s ms t) (h : s.Sound) :
    ∀ m ∈ ms, ¬ m.event.IsEndOf rootId :=
  hr.forall_mem Move.not_isEndOf_root h

/-- A move closes an element whose end is to come, or its end is still to come. -/
theorem Move.awaits_or_closed {s t : Stage} {ms : List Moment} (hm : Move s ms t) (h : s.Sound)
    {id : Nat} (hid : s.Awaits id) :
    (t.Awaits id ∧ ∀ m ∈ ms, ¬ m.event.IsEndOf id) ∨
    ∃ d ids new kind location stop, s = ⟨d, id :: ids, new⟩ ∧ t = ⟨d.close id kind stop, ids, new⟩ ∧
      (new.isSome → kind = .implicit) ∧
      ms = [⟨.tagClose id (new.map Node.id) kind location, (d.close id kind stop).showing new⟩,
        ⟨.elementReady id location, (d.close id kind stop).showing new⟩] := by
  cases hm with
  | @remark d ids e he =>
    refine .inl ⟨hid, ?_⟩
    intro m hm
    rw [List.mem_singleton.mp hm]
    exact (he.about_none d id).2.1
  | store | widen | text => exact .inl ⟨hid, by simp [Event.IsEndOf]⟩
  | announce => exact .inl ⟨hid.imp_right (by simp), by simp⟩
  | @close d top ids new kind location stop hk =>
    by_cases htop : top = id
    · subst htop
      exact .inr ⟨d, ids, new, kind, location, stop, rfl, rfl, hk, rfl⟩
    · refine .inl ⟨hid.imp_left fun hmem => (List.mem_cons.mp hmem).resolve_left (Ne.symm htop), ?_⟩
      simp [Event.IsEndOf, htop]
  | place =>
    refine .inl ⟨.inl ?_, by simp [Event.IsEndOf]⟩
    cases hid with
    | inl hmem => exact List.mem_cons_of_mem _ hmem
    | inr hnew =>
      cases hnew
      exact List.mem_cons_self ..

/-- The upcoming element becomes a child of the current node, and stays one. -/
theorem Stage.Sound.opensIn?_place {d final : Document} {ids : List NodeId} {n : Node}
    (h : (Stage.mk d ids (some n)).Sound) (hd : (d.adopt (ids.headD rootId) n).GrowsTo final)
    (p : NodeId) (location : Location) :
    (Event.tagOpen n.id location).opensIn? final p = if ids.headD rootId = p then
      some n.id else none := by
  have hparent : (final.get? n.id).bind Node.parent = some (ids.headD rootId) := by
    rw [h.upcoming_id]
    exact hd.parent_eq (Document.get?_adopt_new h.head_lt_size n)
  simp only [Event.opensIn?, hparent, Option.some.injEq]

/-- Once an element is closed, no move opens an element in it or closes it again. -/
private theorem Move.silent_of_closed {s t : Stage} {ms : List Moment} {final : Document}
    (hm : Move s ms t) (h : s.Sound) (hd : t.document.GrowsTo final) {p : Nat}
    (hp : p < s.document.size) (hroot : p ≠ rootId) (hclosed : p ∉ s.openElements) :
    p ∉ t.openElements ∧ ∀ m ∈ ms, m.event.opensIn? final p = none ∧
    m.event.startedAfter? p = none := by
  cases hm with
  | remark he =>
    refine ⟨hclosed, ?_⟩
    intro m hm
    rw [List.mem_singleton.mp hm]
    exact (he.about_none final p).2.2
  | store | widen | text | announce =>
    exact ⟨hclosed, by simp [Event.opensIn?, Event.startedAfter?]⟩
  | @close d id ids new kind location stop hk =>
    have hid : id ≠ p := fun hid => hclosed (hid ▸ List.mem_cons_self ..)
    refine ⟨fun hmem => hclosed (List.mem_cons_of_mem _ hmem), ?_⟩
    intro m hm
    simp only [List.mem_cons, List.not_mem_nil, or_false] at hm
    obtain rfl | rfl := hm
    · exact ⟨rfl, Event.startedAfter?_of_not_isEndOf hid⟩
    · exact ⟨rfl, rfl⟩
  | @place d ids n =>
    have hid := h.upcoming_id
    refine ⟨?_, ?_⟩
    · rw [List.mem_cons, not_or, hid]
      exact ⟨Nat.ne_of_lt hp, hclosed⟩
    · -- the new element is a child of the root or of an open element
      have hne : ids.headD rootId ≠ p := by
        cases ids with
        | nil => exact Ne.symm hroot
        | cons id ids => exact fun hid => hclosed (hid ▸ List.mem_cons_self ..)
      intro m hm
      rw [List.mem_singleton.mp hm]
      exact ⟨by rw [h.opensIn?_place hd, if_neg hne], rfl⟩

/-- Once a node is closed, nothing is opened in it, and nothing ends it again. -/
theorem Run.silent_of_closed {s t : Stage} {ms : List Moment} {final : Document} (hr : Run s ms t)
    (h : s.Sound) (hd : t.document.GrowsTo final) {p : Nat} (hp : p < s.document.size)
    (hroot : p ≠ rootId) (hclosed : p ∉ s.openElements) :
    ∀ m ∈ ms, m.event.opensIn? final p = none ∧ m.event.startedAfter? p = none := by
  induction hr with
  | done s => simp
  | move first rest ih =>
    obtain ⟨hclosed', hsilent⟩ :=
      first.silent_of_closed h ((rest.growsTo (h.move first)).trans hd) hp hroot hclosed
    have hp' := Nat.lt_of_lt_of_le hp (first.growsTo h).size_le
    intro m hm
    exact (List.mem_append.mp hm).elim (hsilent m) (ih (h.move first) hd hp' hclosed' m)

/-- The upcoming element is opened. -/
private theorem Run.opens_upcoming {s t : Stage} {ms : List Moment} (hr : Run s ms t)
    (ht : t.upcoming = none) {n : Node} (hn : s.upcoming = some n) :
    ∃ m ∈ ms, m.event = .tagOpen n.id n.location := by
  induction hr with
  | done s => rw [ht] at hn; cases hn
  | move first _ ih =>
    cases first with
    | remark | store | widen | text | announce => cases hn
    | close =>
      obtain ⟨m, hm, he⟩ := ih ht hn
      exact ⟨m, List.mem_append_right _ hm, he⟩
    | place =>
      cases hn
      exact ⟨_, List.mem_append_left _ (List.mem_singleton_self _), rfl⟩

/-- An element whose start tag closes another one has no place yet. -/
private theorem Move.upcoming_of_startedAfter? {s t : Stage} {ms : List Moment} (hm : Move s ms t)
    {p i : Nat} {m : Moment} (hmem : m ∈ ms) (hi : m.event.startedAfter? p = some i) :
    ∃ n, t.upcoming = some n ∧ n.id = i := by
  cases hm with
  | @remark d ids e he =>
    rw [List.mem_singleton.mp hmem, (he.about_none d p).2.2.2] at hi
    cases hi
  | store | place =>
    rw [List.mem_singleton.mp hmem] at hi
    cases hi
  | widen | text | announce => cases hmem
  | @close d id ids new kind location stop hk =>
    simp only [List.mem_cons, List.not_mem_nil, or_false] at hmem
    obtain rfl | rfl := hmem
    · cases new with
      | none => cases hi
      | some n =>
        obtain rfl := hk rfl
        simp only [Option.map_some, Event.startedAfter?, Option.ite_none_right_eq_some,
          Option.some.injEq] at hi
        exact ⟨n, rfl, hi.2⟩
    · cases hi

/-- So it is opened later. -/
theorem Run.opens_started {s t : Stage} {ms : List Moment} (hr : Run s ms t)
    (ht : t.upcoming = none) {p i : Nat} {m : Moment} (hm : m ∈ ms)
    (hi : m.event.startedAfter? p = some i) :
    ∃ m' ∈ ms, ∃ location, m'.event = .tagOpen i location := by
  induction hr with
  | done s => cases hm
  | move first rest ih =>
    cases List.mem_append.mp hm with
    | inr hm =>
      obtain ⟨m', hm', he⟩ := ih ht hm
      exact ⟨m', List.mem_append_right _ hm', he⟩
    | inl hm =>
      obtain ⟨n, hn, rfl⟩ := first.upcoming_of_startedAfter? hm hi
      obtain ⟨m', hm', he⟩ := rest.opens_upcoming ht hn
      exact ⟨m', List.mem_append_right _ hm', n.location, he⟩

/-- A move that opens an element stores it where its start tag is. -/
private theorem Move.stored_of_tagOpen {s t : Stage} {ms : List Moment} (hm : Move s ms t)
    (h : s.Sound) {m : Moment} (hmem : m ∈ ms) {i : Nat} {location : Location}
    (he : m.event = .tagOpen i location) :
    i ≠ rootId ∧ ∃ n, t.document.get? i = some n ∧ n.location = location := by
  cases hm with
  | remark hremark =>
    rw [List.mem_singleton.mp hmem] at he
    subst he
    exact hremark.elim
  | store =>
    rw [List.mem_singleton.mp hmem] at he
    cases he
  | widen | text | announce => cases hmem
  | close =>
    simp only [List.mem_cons, List.not_mem_nil, or_false] at hmem
    obtain rfl | rfl := hmem <;> cases he
  | @place d ids n =>
    rw [List.mem_singleton.mp hmem] at he
    cases he
    rw [h.upcoming_id]
    exact ⟨Nat.ne_of_gt d.size_pos, _, Document.get?_adopt_new h.head_lt_size n, rfl⟩

/-- An element starts in the finished document where it is opened, and is not the root. -/
theorem Run.offset_of_tagOpen {s t : Stage} {ms : List Moment} {final : Document} (hr : Run s ms t)
    (h : s.Sound) (hd : t.document.GrowsTo final) {m : Moment} (hm : m ∈ ms) {i : Nat}
    {location : Location} (he : m.event = .tagOpen i location) :
    i ≠ rootId ∧ ∃ n, final.get? i = some n ∧ n.location.offset = location.offset := by
  induction hr with
  | done s => cases hm
  | move first rest ih =>
    cases List.mem_append.mp hm with
    | inr hm => exact ih (h.move first) hd hm
    | inl hm =>
      obtain ⟨hroot, n, hn, rfl⟩ := first.stored_of_tagOpen h hm he
      obtain ⟨n', hn', hgrows⟩ := ((rest.growsTo (h.move first)).trans hd).get? hn
      exact ⟨hroot, n', hn', hgrows.offset_eq⟩

/-- For a suppression that waits for the next element in the root or in an open element, a move does
nothing, or opens this element, or closes the element around it. -/
theorem Move.quiet_or_next {s t : Stage} {ms : List Moment} {final : Document} (hm : Move s ms t)
    (h : s.Sound) (hd : t.document.GrowsTo final) {p : Nat} (hp : p = rootId ∨ p ∈ s.openElements) :
    ((p = rootId ∨ p ∈ t.openElements) ∧ ∀ m ∈ ms, ¬ m.event.IsEndOf p ∧
      m.event.opensIn? m.document p = none ∧ m.event.opensIn? final p = none ∧
      m.event.startedAfter? p = none) ∨
    (∃ d ids n, s = ⟨d, ids, some n⟩ ∧ ids.headD rootId = p ∧ t = ⟨d.adopt p n, n.id :: ids, none⟩ ∧
      ms = [⟨.tagOpen n.id n.location, d.adopt p n⟩]) ∨
    ∃ d ids new kind location stop, s = ⟨d, p :: ids, new⟩ ∧ t = ⟨d.close p kind stop, ids, new⟩ ∧
      (new.isSome → kind = .implicit) ∧
      ms = [⟨.tagClose p (new.map Node.id) kind location, (d.close p kind stop).showing new⟩,
        ⟨.elementReady p location, (d.close p kind stop).showing new⟩] := by
  cases hm with
  | remark he =>
    refine .inl ⟨hp, ?_⟩
    intro m hm
    rw [List.mem_singleton.mp hm]
    obtain ⟨-, hend, hopens, hstarted⟩ := he.about_none final p
    exact ⟨hend, (he.about_none _ p).2.2.1, hopens, hstarted⟩
  | store | widen | text | announce =>
    exact .inl ⟨hp, by simp [Event.IsEndOf, Event.opensIn?, Event.startedAfter?]⟩
  | @close d id ids new kind location stop hk =>
    by_cases hid : id = p
    · subst hid
      exact .inr (.inr ⟨d, ids, new, kind, location, stop, rfl, rfl, hk, rfl⟩)
    · refine .inl ⟨hp.imp_right fun hmem => (List.mem_cons.mp hmem).resolve_left (Ne.symm hid), ?_⟩
      intro m hm
      simp only [List.mem_cons, List.not_mem_nil, or_false] at hm
      obtain rfl | rfl := hm
      · exact ⟨hid, rfl, rfl, Event.startedAfter?_of_not_isEndOf hid⟩
      · exact ⟨hid, rfl, rfl, rfl⟩
  | @place d ids n =>
    by_cases hhead : ids.headD rootId = p
    · subst hhead
      exact .inr (.inl ⟨d, ids, n, rfl, rfl, rfl, rfl⟩)
    · refine .inl ⟨hp.imp_right (List.mem_cons_of_mem _), ?_⟩
      intro m hm
      rw [List.mem_singleton.mp hm]
      refine ⟨id, ?_, ?_, rfl⟩
      · rw [h.opensIn?_place (.refl _), if_neg hhead]
      · rw [h.opensIn?_place hd, if_neg hhead]

end HtmlLint
