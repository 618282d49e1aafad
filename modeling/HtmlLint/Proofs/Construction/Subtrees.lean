import HtmlLint.Proofs.Construction.Finality
import HtmlLint.Proofs.Construction.Shown
import HtmlLint.Proofs.List

/-!
# Complete elements stay as they are

When an element is complete, so is everything in it.  The numbers of the nodes in an element begin
with its own number, and the elements that are still open when it is closed have smaller ones.
Since a move changes no node but the root and the open elements, no later move changes a node of a
complete element: `complete_subtree_isFinal`.  This is so whatever tokens come, in whatever order.
-/

namespace HtmlLint

/-! ## Elements with everything in them -/

namespace Document

variable {d d' : Document} {target i : Nat}

/-- The node and everything in it is there in both documents, and is the same. -/
def SameBelow (target : NodeId) (d d' : Document) : Prop :=
  ∀ i, d.Encloses target i → ∃ n, d.get? i = some n ∧ d'.get? i = some n

/-- What lies in a node can be read off the nodes that lie in it. -/
private theorem SameBelow.encloses_iff (h : d.SameBelow target d') (i : NodeId) :
    d'.Encloses target i ↔ d.Encloses target i := by
  constructor
  · intro hi
    induction hi with
    | self => exact .self
    | child hm hc _ ih =>
      obtain ⟨n, hn, hn'⟩ := h _ ih
      rw [hm] at hn'
      cases hn'
      exact .child hn hc ih
  · intro hi
    induction hi with
    | self => exact .self
    | child hm hc hp ih =>
      obtain ⟨n, hn, hn'⟩ := h _ hp
      rw [hm] at hn
      cases hn
      exact .child hn' hc ih

/-- Two documents that agree below a node agree in either order. -/
private theorem SameBelow.symm (h : d.SameBelow target d') : d'.SameBelow target d := by
  intro i hi
  obtain ⟨n, hn, hn'⟩ := h i ((h.encloses_iff i).mp hi)
  exact ⟨n, hn', hn⟩

/-- Agreement below a node carries over from document to document. -/
private theorem SameBelow.trans {d'' : Document} (h : d.SameBelow target d')
    (h' : d'.SameBelow target d'') :
    d.SameBelow target d'' := by
  intro i hi
  obtain ⟨n, hn, hn'⟩ := h i hi
  obtain ⟨n', hn'', hlast⟩ := h' i ((h.encloses_iff i).mpr hi)
  rw [hn'] at hn''
  cases hn''
  exact ⟨n, hn, hlast⟩

/-- In a tree all nodes that lie in a node are there. -/
private theorem Encloses.lt_size (h : d.Encloses target i) (ht : d.IsTree)
    (htarget : target < d.size) : i < d.size := by
  cases h with
  | self => exact htarget
  | child hm hc _ => exact ht.child_lt hm hc

/-- So documents with the same nodes from a node on are the same below it. -/
private theorem IsTree.sameBelow (ht : d.IsTree) (htarget : target < d.size)
    (h : ∀ i, target ≤ i → i < d.size → d'.get? i = d.get? i) : d.SameBelow target d' := by
  intro i hi
  have hlt := hi.lt_size ht htarget
  obtain ⟨n, hn⟩ := exists_get?_of_lt hlt
  exact ⟨n, hn, by rw [h i (hi.le ht) hlt, hn]⟩

end Document

/-! ## Moves and runs -/

/-- A node that is neither the root nor open is the same at all moments to come. -/
private theorem Run.get?_eq_of_mem {s t : Stage} {ms : List Moment} (hr : Run s ms t) (h : s.Sound)
    {i : Nat} (hi : i < s.document.size) (hroot : i ≠ rootId) (hopen : i ∉ s.openElements)
    {m : Moment} (hm : m ∈ ms) :
    m.document.get? i = s.document.get? i := by
  induction hr with
  | done s => cases hm
  | @move s t u _ _ first _ ih =>
    obtain ⟨heq, hi', hopen'⟩ := first.get?_eq h hi hroot hopen
    cases List.mem_append.mp hm with
    | inl hm =>
      -- an observer sees the stage before the move or the one after it
      obtain hshown | hshown := first.shown_of_mem hm
      · rw [hshown, Stage.shown, Document.get?_showing_of_lt hi]
      · rw [hshown, Stage.shown, Document.get?_showing_of_lt hi', heq]
    | inr hm => rw [ih (h.move first) hi' hopen' hm, heq]

/-- If the moment tells that an element is complete, the document has this element as it is now,
with everything in it. -/
def Moment.Seals (m : Moment) (d : Document) : Prop :=
  ∀ target location, m.event = .elementReady target location → m.document.SameBelow target d

/-- Closing an element seals it: the nodes from it on are not open, whatever run follows. -/
private theorem Stage.Sound.sameBelow_close {d : Document} {id : Nat} {ids : List NodeId}
    {new : Option Node} {kind : CloseKind} {stop : Nat} (h : (Stage.mk d (id :: ids) new).Sound)
    (hclosed : (Stage.mk (d.close id kind stop) ids new).Sound)
    (hgrown : (Stage.mk (d.close id kind stop) ids new).Grown) {ms : List Moment} {t : Stage}
    (hr : Run ⟨d.close id kind stop, ids, new⟩ ms t) :
    (d.close id kind stop).SameBelow id ((d.close id kind stop).showing new) ∧
      (d.close id kind stop).SameBelow id t.document ∧
      (d.close id kind stop).SameBelow id t.document.ended ∧
      ∀ m ∈ ms, (d.close id kind stop).SameBelow id m.document := by
  have hid : id < (d.close id kind stop).size := by
    rw [Document.size_close]
    exact h.lt_size (List.mem_cons_self ..)
  -- a node that lies in the element is neither the root nor open
  refine ⟨?_, ?_, ?_, fun m hm => ?_⟩ <;> refine hgrown.tree.sameBelow hid fun i hle hi => ?_ <;>
    obtain ⟨hne, hopen⟩ := h.not_open_of_le hle
  · exact Document.get?_showing_of_lt hi new
  · exact hr.get?_eq hclosed hi hne hopen
  · rw [Document.ended, Document.get?_modify_of_ne (Ne.symm hne)]
    exact hr.get?_eq hclosed hi hne hopen
  · exact hr.get?_eq_of_mem hclosed hi hne hopen hm

/-- The moment tells that an element is complete only if it is the last one of a move that closes
the element. -/
private theorem Move.cases_of_elementReady {s t : Stage} {ms before after : List Moment}
    (hm : Move s ms t) {m : Moment} (hms : ms = before ++ m :: after) {target : NodeId}
    {location : Location} (he : m.event = .elementReady target location) :
    ∃ d ids new kind stop, s = ⟨d, target :: ids, new⟩ ∧ t = ⟨d.close target kind stop, ids, new⟩ ∧
      m.document = (d.close target kind stop).showing new ∧ after = [] := by
  have hmem : m ∈ ms := by simp [hms]
  cases hm with
  | remark hremark =>
    rw [List.mem_singleton.mp hmem] at he
    subst he
    exact hremark.elim
  | store | place =>
    rw [List.mem_singleton.mp hmem] at he
    cases he
  | widen | text | announce => cases hmem
  | @close d id ids new kind location' stop hk =>
    -- of the two moments of a closing the first one tells something else
    cases before with
    | nil =>
      cases hms
      cases he
    | cons first before =>
      cases before with
      | nil =>
        cases hms
        cases he
        exact ⟨d, ids, new, kind, stop, rfl, rfl, rfl, rfl⟩
      | cons second before => simp at hms

/-- What a moment of a run tells to be complete stays so at all later moments and in the end. -/
private theorem Run.seals {s t : Stage} {ms before after : List Moment} (hr : Run s ms t)
    (h : s.Sound) (hgrown : s.Grown) {m : Moment} (hms : ms = before ++ m :: after) :
    m.Seals t.document ∧ m.Seals t.document.ended ∧ ∀ m' ∈ after, m.Seals m'.document := by
  induction hr generalizing before with
  | done s => simp at hms
  | @move s t u _ later first rest ih =>
    have ht := h.move first
    have htgrown := hgrown.move first h
    obtain ⟨x, rfl, hlater⟩ | ⟨x, hfirst, hafter⟩ := List.append_eq_append_iff.mp hms
    · exact ih ht htgrown hlater
    · cases x with
      | nil =>
        have hlater : later = [] ++ m :: after := hafter.symm
        exact ih ht htgrown hlater
      | cons m' x =>
        cases hafter
        have hsealed : ∀ target location, m.event = .elementReady target location →
            m.document.SameBelow target u.document ∧ m.document.SameBelow target u.document.ended ∧
              ∀ m' ∈ x ++ later, m.document.SameBelow target m'.document := by
          intro target location he
          obtain ⟨d, ids, new, kind, stop, rfl, rfl, hdocument, rfl⟩ :=
            first.cases_of_elementReady hfirst he
          obtain ⟨hnow, hend, hended, hmoments⟩ := h.sameBelow_close ht htgrown rest
          rw [hdocument]
          exact ⟨hnow.symm.trans hend, hnow.symm.trans hended,
            fun m' hm' => hnow.symm.trans (hmoments m' hm')⟩
        exact ⟨fun target location he => (hsealed target location he).1,
          fun target location he => (hsealed target location he).2.1,
          fun m' hm' target location he => (hsealed target location he).2.2 m' hm'⟩

/-- A moment that tells something else seals nothing. -/
private theorem Moment.seals_of_ne {m : Moment} (h : m.event.kind ≠ .elementReady) (d : Document) :
    m.Seals d := by
  intro target location he
  rw [he] at h
  exact absurd rfl h

/-! ## All constructions -/

/-- An element that is complete is final with everything in it.  Whatever the tokens are, and in
whatever order they come: when a moment tells that an element is complete, this element and all
nodes in it, with all that is known about them, are the same at every later moment and in the
document after all these tokens, and also if the document is ended after them. -/
theorem complete_subtree_isFinal (v : Vocabulary) (ts : List Token) (length : Nat) :
    let built := Construction.takeIn v ts (.ofLength length)
    let made := Construction.record v ts length
    (∀ before m after, built.2 = before ++ m :: after →
      m.Seals built.1.document ∧ ∀ m' ∈ after, m.Seals m'.document) ∧
    (∀ before m after, made.2 = before ++ m :: after →
      m.Seals made.1 ∧ ∀ m' ∈ after, m.Seals m'.document) := by
  intro built made
  have hsound := Stage.Sound.ofLength length
  have hgrown := Stage.Grown.ofLength length
  constructor
  · intro before m after hms
    by_cases hkind : m.event.kind = .elementReady
    · cases ts with
      | nil => simp [built, Construction.takeIn] at hms
      | cons t ts =>
        have hready :
            ({ Construction.ofLength length with started := true } : Construction).Ready :=
          ⟨hsound, by simp [Construction.ofLength]⟩
        obtain ⟨hrun, -⟩ := Construction.takeIn_run (v := v) hready rfl (t :: ts)
        simp only [built, Construction.takeIn_of_not_started (c := .ofLength length) rfl] at hms ⊢
        cases before with
        | nil => cases hms; cases hkind
        | cons first before =>
          obtain ⟨hend, -, hlater⟩ := hrun.seals hsound hgrown (List.cons.inj hms).2
          exact ⟨hend, hlater⟩
    · exact ⟨Moment.seals_of_ne hkind _, fun m' _ => Moment.seals_of_ne hkind m'.document⟩
  · intro before m after hms
    by_cases hkind : m.event.kind = .elementReady
    · obtain ⟨ms, d, hrun, hrecord⟩ := Construction.record_run v ts length
      simp only [made, hrecord] at hms ⊢
      -- neither the first moment nor the last one tells that an element is complete
      cases before with
      | nil => cases hms; cases hkind
      | cons first before =>
        obtain rfl | ⟨after, rfl, hbetween⟩ :=
          eq_or_exists_of_append_singleton (List.cons.inj hms).2
        · cases hkind
        · obtain ⟨-, hended, hlater⟩ := hrun.seals hsound hgrown hbetween
          refine ⟨hended, fun m' hm' => ?_⟩
          obtain hm' | hm' := List.mem_append.mp hm'
          · exact hlater m' hm'
          · rw [List.mem_singleton.mp hm']
            exact hended
    · exact ⟨Moment.seals_of_ne hkind _, fun m' _ => Moment.seals_of_ne hkind m'.document⟩

/-- In the list below, the first item is complete when the second one starts, and the document has
it so in the end. -/
theorem complete_subtree_isFinal_item :
    let made := Construction.record
      (.mk (.ofList [("li", { (default : ElementModel) with implicitClosed := ["li"] })]))
      (tokenize "<ul><li>a<li>b</ul>").tokens 19
    ∃ m ∈ made.2, m.event.kind = .elementReady ∧ m.event.target? = some 2 ∧
    m.document.SameBelow 2 made.1 := by
  intro made
  have hevents : (made.2.map Moment.event).any
      (fun e => e.kind == .elementReady && e.target? == some 2) = true := by
    decide +kernel
  obtain ⟨e, he, hready⟩ := List.any_eq_true.mp hevents
  obtain ⟨m, hm, rfl⟩ := List.mem_map.mp he
  simp only [Bool.and_eq_true, beq_iff_eq] at hready
  obtain ⟨before, after, hms⟩ := List.append_of_mem hm
  obtain ⟨hseals, -⟩ := (complete_subtree_isFinal _ _ _).2 before m after hms
  refine ⟨m, hm, hready.1, hready.2, ?_⟩
  cases hevent : m.event with
  | elementReady target location =>
    rw [hevent] at hready
    cases hready.2
    exact hseals _ _ hevent
  | domLoad | tagOpen | tagClose | attr | doctype | directive | invalidDirective
      | parseError | domReady =>
    rw [hevent] at hready
    cases hready.1

end HtmlLint
