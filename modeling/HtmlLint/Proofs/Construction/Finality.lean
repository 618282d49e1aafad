import HtmlLint.Proofs.Construction.Growth
import HtmlLint.Proofs.Construction.Tree

/-!
# What observers read is final

An observer sees the document while it is being made, and what it reads there may change later: an
open element gets attributes and children, and nobody knows yet where it ends.  But there is much
that does not change.  A move touches no node but the current one (`Move.get?_eq`), so that what is
closed stays as it is together with everything in it, and what a node is (`Node.Resembles`) is known
from the start.

`Moment.IsFinal` says what this leaves for an observer to rely on at each event, and
`record_isFinal` that it may do so at every moment of every construction.
-/

namespace HtmlLint

/-! ## What nodes are -/

/-- The nodes are the same in what is known about a node from the start on. -/
structure Node.Resembles (n n' : Node) : Prop where
  kind_eq : n.kind = n'.kind
  tag_eq : n.tag = n'.tag
  foreign_eq : n.foreign = n'.foreign
  parent_eq : n.parent = n'.parent

/-- Every node resembles itself. -/
theorem Node.Resembles.refl (n : Node) : n.Resembles n :=
  ⟨rfl, rfl, rfl, rfl⟩

/-- Resemblance carries over from change to change. -/
theorem Node.Resembles.trans {n n' n'' : Node} (h : n.Resembles n') (h' : n'.Resembles n'') :
    n.Resembles n'' :=
  ⟨h.kind_eq.trans h'.kind_eq, h.tag_eq.trans h'.tag_eq, h.foreign_eq.trans h'.foreign_eq,
    h.parent_eq.trans h'.parent_eq⟩

/-- Whether a node is an element is known from the start on. -/
theorem Node.Resembles.isElement_eq {n n' : Node} (h : n.Resembles n') :
    n.isElement = n'.isElement := by
  unfold isElement
  rw [h.kind_eq]

/-- So they have the same model. -/
theorem Node.Resembles.modelOf?_eq {n n' : Node} (h : n.Resembles n') (v : Vocabulary) :
    v.modelOf? n = v.modelOf? n' := by
  unfold Vocabulary.modelOf?
  rw [h.isElement_eq, h.tag_eq, h.foreign_eq]

/-- Every node of the first document is there in the second one, and the two are the same in what is
known from the start on. -/
def Document.Foreshadows (d d' : Document) : Prop :=
  ∀ (i : Nat) (n : Node), d.get? i = some n → ∃ n', d'.get? i = some n' ∧ n.Resembles n'

namespace Document.Foreshadows

variable {d d' d'' : Document}

/-- Every document foreshadows itself. -/
private theorem refl (d : Document) : d.Foreshadows d :=
  fun _ n hn => ⟨n, hn, .refl n⟩

/-- What an early document foreshadows is foreshadowed by later ones as well. -/
theorem trans (h : d.Foreshadows d') (h' : d'.Foreshadows d'') : d.Foreshadows d'' := by
  intro i n hn
  obtain ⟨n', hn', hlike⟩ := h i n hn
  obtain ⟨n'', hn'', hlike'⟩ := h' i n' hn'
  exact ⟨n'', hn'', hlike.trans hlike'⟩

/-- A change of one node that resembles it is foreshadowed. -/
private theorem modify {j : Nat} {f : Node → Node} (hf : ∀ n : Node, n.Resembles (f n)) :
    d.Foreshadows (d.modify j f) := by
  intro i n hn
  rw [get?_modify]
  split
  · exact ⟨f n, by rw [hn]; rfl, hf n⟩
  · exact ⟨n, hn, .refl n⟩

/-- So is a new node. -/
theorem adopt {p : Nat} (hp : p < d.size) (new : Node) : d.Foreshadows (d.adopt p new) := by
  intro i n hn
  by_cases hip : i = p
  · subst hip
    exact ⟨_, get?_adopt_parent hn new, rfl, rfl, rfl, rfl⟩
  · have hi : i ≠ d.size := Nat.ne_of_lt (lt_size_of_get? hn)
    exact ⟨n, by rw [get?_adopt_of_ne hip hi, hn], .refl n⟩

end Document.Foreshadows

/-- Every move is foreshadowed by the document before it. -/
private theorem Move.foreshadows {s t : Stage} {ms : List Moment} (hm : Move s ms t) (h : s.Sound) :
    s.document.Foreshadows t.document := by
  cases hm with
  | remark | announce => exact .refl _
  | store | widen | close => exact .modify fun _ => ⟨rfl, rfl, rfl, rfl⟩
  | text | place => exact .adopt h.head_lt_size _

/-- So is every run. -/
theorem Run.foreshadows {s t : Stage} {ms : List Moment} (hr : Run s ms t) (h : s.Sound) :
    s.document.Foreshadows t.document := by
  induction hr with
  | done s => exact .refl _
  | move first _ ih => exact (first.foreshadows h).trans (ih (h.move first))

/-- What is known of the nodes from the start on stays while tokens are taken in. -/
theorem Construction.takeIn_foreshadows {v : Vocabulary} {c : Construction} (h : c.Ready)
    (ts : List Token) :
    c.document.Foreshadows (takeIn v ts c).1.document := by
  induction ts generalizing c with
  | nil => exact .refl _
  | cons t ts ih =>
    have hstep := (step_run (v := v) h.start t).foreshadows h.start.sound
    rw [stage_start] at hstep
    exact hstep.trans (ih (h.start.step v t))

/-- So is the end of the source. -/
private theorem Document.foreshadows_ended (d : Document) : d.Foreshadows d.ended :=
  .modify fun _ => ⟨rfl, rfl, rfl, rfl⟩

/-! ## What does not change -/

/-- A move changes no node but the root and the open elements, and closed elements stay closed. -/
theorem Move.get?_eq {s t : Stage} {ms : List Moment} (hm : Move s ms t) (h : s.Sound) {i : Nat}
    (hi : i < s.document.size) (hroot : i ≠ rootId) (hopen : i ∉ s.openElements) :
    t.document.get? i = s.document.get? i ∧ i < t.document.size ∧ i ∉ t.openElements := by
  -- the node that new nodes go into is the root or an open element
  have hhead : ∀ {ids : List NodeId}, i ∉ ids → i ≠ ids.headD rootId := by
    intro ids hids
    cases ids with
    | nil => exact hroot
    | cons id ids => exact fun heq => hids (heq ▸ List.mem_cons_self ..)
  cases hm with
  | remark | announce => exact ⟨rfl, hi, hopen⟩
  | store | widen =>
    refine ⟨Document.get?_modify_of_ne ?_ _,
      by simpa [Document.setAttribute, Document.widen] using hi, hopen⟩
    exact fun heq => hopen (heq ▸ List.mem_cons_self ..)
  | close =>
    refine ⟨Document.get?_modify_of_ne ?_ _,
      by simpa using hi, fun hmem => hopen (List.mem_cons_of_mem _ hmem)⟩
    exact fun heq => hopen (heq ▸ List.mem_cons_self ..)
  | text =>
    exact ⟨Document.get?_adopt_of_ne (hhead hopen) (Nat.ne_of_lt hi) _,
      by simpa using Nat.lt_succ_of_lt hi, hopen⟩
  | place =>
    refine ⟨Document.get?_adopt_of_ne (hhead hopen) (Nat.ne_of_lt hi) _,
      by simpa using Nat.lt_succ_of_lt hi, ?_⟩
    rw [List.mem_cons, not_or, h.upcoming_id]
    exact ⟨Nat.ne_of_lt hi, hopen⟩

/-- What is closed stays as it is. -/
theorem Run.get?_eq {s t : Stage} {ms : List Moment} (hr : Run s ms t) (h : s.Sound) {i : Nat}
    (hi : i < s.document.size) (hroot : i ≠ rootId) (hopen : i ∉ s.openElements) :
    t.document.get? i = s.document.get? i := by
  induction hr with
  | done s => rfl
  | move first _ ih =>
    obtain ⟨heq, hi', hopen'⟩ := first.get?_eq h hi hroot hopen
    rw [ih (h.move first) hi' hopen', heq]

/-! ## What may be relied on -/

/-- The node and its children are what they are in the finished document, and the nodes before it,
among which are those around it, resemble those of the finished document. -/
structure Node.IsComplete (n : Node) (d final : Document) : Prop where
  here : d.get? n.id = some n
  there : final.get? n.id = some n
  children : ∀ c ∈ n.children, ∃ m, d.get? c = some m ∧ final.get? c = some m ∧ m.id = c
  parent_lt : ∀ p, n.parent = some p → p < n.id
  before : ∀ (j : Nat) (m : Node), j < n.id → d.get? j = some m → ∃ m', final.get? j = some m' ∧
    m.Resembles m'

/-- What an observer reads at the moment is what the finished document says: what a new element is,
all about an element that is closed, and all about an element that is complete and its children. -/
def Moment.IsFinal (final : Document) (m : Moment) : Prop :=
  match m.event with
  | .tagOpen i _ => ∃ n n', m.document.get? i = some n ∧ final.get? i = some n' ∧ n.Resembles n'
  | .tagClose i _ _ _ => ∃ n, m.document.get? i = some n ∧ final.get? i = some n
  | .elementReady i _ => ∃ n : Node, n.id = i ∧ n.IsComplete m.document final
  | .domReady => m.document = final
  | _ => True

section Closing

variable {d : Document} {id : Nat} {ids : List NodeId} {new : Option Node} {kind : CloseKind}
  {stop : Nat}

/-- The nodes from an open element on are neither the root nor one of the open elements around
it. -/
theorem Stage.Sound.not_open_of_le (h : (Stage.mk d (id :: ids) new).Sound) {i : Nat}
    (hle : id ≤ i) :
    i ≠ rootId ∧ i ∉ ids := by
  have hpos : 0 < id := Nat.pos_of_ne_zero (h.ne_root (List.mem_cons_self ..))
  have hbefore : ∀ j ∈ ids, j < id := (List.pairwise_cons.mp h.decreasing).1
  exact ⟨Nat.ne_of_gt (Nat.lt_of_lt_of_le hpos hle),
    fun hmem => Nat.not_lt.mpr hle (hbefore i hmem)⟩

/-- An element that is closed is complete: nothing in it is open any more, and nothing before it
changes in what it is. -/
private theorem Stage.Sound.isComplete_close (h : (Stage.mk d (id :: ids) new).Sound)
    (hclosed : (Stage.mk (d.close id kind stop) ids new).Sound)
    (hgrown : (Stage.mk (d.close id kind stop) ids new).Grown) {ms : List Moment} {t : Stage}
    (hr : Run ⟨d.close id kind stop, ids, new⟩ ms t) :
    ∃ n : Node, n.id = id ∧ n.IsComplete ((d.close id kind stop).showing new) t.document.ended := by
  have hid : id < (d.close id kind stop).size := by
    rw [Document.size_close]
    exact h.lt_size (List.mem_cons_self ..)
  obtain ⟨n, hn⟩ := Document.exists_get?_of_lt hid
  obtain rfl : n.id = id := hgrown.tree.id_eq hn
  -- the nodes from this one on are not open, so that they stay as they are
  have hstays : ∀ i, n.id ≤ i → i < (d.close n.id kind stop).size →
      t.document.ended.get? i = (d.close n.id kind stop).get? i := by
    intro i hle hi
    obtain ⟨hne, hopen⟩ := h.not_open_of_le hle
    rw [Document.ended, Document.get?_modify_of_ne (Ne.symm hne)]
    exact hr.get?_eq hclosed hi hne hopen
  refine ⟨n, rfl, ?_, ?_, fun c hc => ?_, fun p hp => hgrown.tree.parent_lt hn hp,
    fun j m hj hm => ?_⟩
  · rw [Document.get?_showing_of_lt hid, hn]
  · rw [hstays n.id (Nat.le_refl _) hid, hn]
  · -- children are younger than their parent
    have hlt := hgrown.tree.child_lt hn hc
    have hle := Nat.le_of_lt (hgrown.tree.lt_of_mem_children hn hc)
    obtain ⟨m, hm⟩ := Document.exists_get?_of_lt hlt
    exact ⟨m, by rw [Document.get?_showing_of_lt hlt, hm],
      by rw [hstays c hle hlt, hm], hgrown.tree.id_eq hm⟩
  · rw [Document.get?_showing_of_lt (Nat.lt_trans hj hid)] at hm
    exact ((hr.foreshadows hclosed).trans t.document.foreshadows_ended) j m hm

end Closing

/-! ## All moments -/

/-- What is read at the moments of a move is final, whatever run leads from it to the end. -/
private theorem Move.isFinal {s t u : Stage} {ms later : List Moment} (hm : Move s ms t)
    (hr : Run t later u) (h : s.Sound) (hgrown : s.Grown) :
    ∀ m ∈ ms, m.IsFinal u.document.ended := by
  have ht := h.move hm
  have htgrown := hgrown.move hm h
  cases hm with
  | @remark d ids e he =>
    simp only [List.mem_singleton, forall_eq]
    cases e with
    | parseError | doctype | invalidDirective | directive => trivial
    | domLoad | tagOpen | tagClose | elementReady | attr | domReady => exact he.elim
  | store a =>
    simp only [List.mem_singleton, forall_eq]
    trivial
  | widen | text | announce => simp
  | close location stop hk =>
    obtain ⟨n, rfl, hcomplete⟩ := h.isComplete_close ht htgrown hr
    simp only [List.mem_cons, List.not_mem_nil, or_false, forall_eq_or_imp, forall_eq]
    exact ⟨⟨n, hcomplete.here, hcomplete.there⟩, n, rfl, hcomplete⟩
  | @place d ids n =>
    simp only [List.mem_singleton, forall_eq]
    have hnew := Document.get?_adopt_new h.head_lt_size n
    obtain ⟨n', hn', hlike⟩ := ((hr.foreshadows ht).trans u.document.foreshadows_ended) _ _ hnew
    show ∃ n₁ n₂, (d.adopt (ids.headD rootId) n).get? n.id = some n₁ ∧ _
    rw [h.upcoming_id]
    exact ⟨_, n', hnew, hn', hlike⟩

/-- All that observers read during a run is final. -/
private theorem Run.isFinal {s t : Stage} {ms : List Moment} (hr : Run s ms t) (h : s.Sound)
    (hgrown : s.Grown) :
    ∀ m ∈ ms, m.IsFinal t.document.ended := by
  induction hr with
  | done s => simp
  | move first rest ih =>
    intro m hm
    cases List.mem_append.mp hm with
    | inl hm => exact first.isFinal rest h hgrown m hm
    | inr hm => exact ih (h.move first) (hgrown.move first h) m hm

/-- Whatever the tokens, what is read at any moment of a construction is final. -/
theorem Construction.record_isFinal (v : Vocabulary) (ts : List Token) (length : Nat) :
    ∀ m ∈ (record v ts length).2, m.IsFinal (record v ts length).1 := by
  obtain ⟨ms, d, hrun, hrecord⟩ := record_run v ts length
  have hfinal := hrun.isFinal (.ofLength length) (.ofLength length)
  rw [hrecord]
  intro m hm
  simp only [List.cons_append, List.mem_cons, List.mem_append, List.not_mem_nil, or_false] at hm
  obtain rfl | hm | rfl := hm
  · trivial
  · exact hfinal m hm
  · rfl

end HtmlLint
