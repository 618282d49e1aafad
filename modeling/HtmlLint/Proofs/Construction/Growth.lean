import HtmlLint.Proofs.Construction.Move

/-!
# Documents only grow

A construction never takes anything back.  `Document.GrowsTo` says what a later document of the same
construction still knows about the nodes of an earlier one: kind, parent and start of every node
stay, and a node that is closed, or a run of text, stays as it is (`Run.growsTo`).  What an observer
reads off an element when it is closed is therefore what the finished document says about it.  In
the finished document every node has an end (`Run.range?_isSome`).
-/

namespace HtmlLint

/-- A slice that is extended starts where it did. -/
theorem Location.offset_extendTo (l other : Location) : (l.extendTo other).offset = l.offset := by
  simp only [extendTo]
  split <;> rfl

/-- A slice that is extended stops where the other one does, if it did not go further before. -/
theorem Location.stop_extendTo {l other : Location} (h : l.stop ≤ other.stop) :
    (l.extendTo other).stop = other.stop := by
  simp only [extendTo]
  split
  · simp only [stop] at *; omega
  · simp only [stop] at *; omega

/-- The node may still change: it is the root or an open element. -/
def Node.IsGrowing (n : Node) : Prop :=
  n.closed = none ∧ ∀ content, n.kind ≠ .text content

/-- What a later document still knows about a node. -/
structure Node.GrowsTo (n n' : Node) : Prop where
  kind_eq : n'.kind = n.kind
  parent_eq : n'.parent = n.parent
  offset_eq : n'.location.offset = n.location.offset
  eq_of_not_growing : ¬ n.IsGrowing → n' = n

/-- Every node has grown to itself. -/
private theorem Node.GrowsTo.refl (n : Node) : n.GrowsTo n :=
  ⟨rfl, rfl, rfl, fun _ => rfl⟩

/-- Growth carries over from change to change. -/
private theorem Node.GrowsTo.trans {n n' n'' : Node} (h : n.GrowsTo n') (h' : n'.GrowsTo n'') :
    n.GrowsTo n'' where
  kind_eq := h'.kind_eq.trans h.kind_eq
  parent_eq := h'.parent_eq.trans h.parent_eq
  offset_eq := h'.offset_eq.trans h.offset_eq
  eq_of_not_growing hn := by
    have heq := h.eq_of_not_growing hn
    subst heq
    exact h'.eq_of_not_growing hn

/-- Every node of the first document is still there in the second. -/
structure Document.GrowsTo (d d' : Document) : Prop where
  sourceLength_eq : d'.sourceLength = d.sourceLength
  get? : ∀ {i : Nat} {n : Node}, d.get? i = some n → ∃ n', d'.get? i = some n' ∧ n.GrowsTo n'

namespace Document.GrowsTo

variable {d d' d'' : Document}

/-- Every document has grown to itself. -/
theorem refl (d : Document) : d.GrowsTo d :=
  ⟨rfl, fun {_ n} hn => ⟨n, hn, .refl n⟩⟩

/-- Growth carries over from document to document. -/
theorem trans (h : d.GrowsTo d') (h' : d'.GrowsTo d'') : d.GrowsTo d'' := by
  refine ⟨h'.sourceLength_eq.trans h.sourceLength_eq, fun {i n} hn => ?_⟩
  obtain ⟨n', hn', hg⟩ := h.get? hn
  obtain ⟨n'', hn'', hg'⟩ := h'.get? hn'
  exact ⟨n'', hn'', hg.trans hg'⟩

/-- A change of a node that may still change, if it is not about kind, parent and start. -/
private theorem modify {j : Nat} {f : Node → Node} (hj : ∀ n, d.get? j = some n → n.IsGrowing)
    (hk : ∀ n, (f n).kind = n.kind) (hp : ∀ n, (f n).parent = n.parent)
    (ho : ∀ n, (f n).location.offset = n.location.offset) : d.GrowsTo (d.modify j f) := by
  refine ⟨rfl, fun {i n} hn => ?_⟩
  rw [get?_modify]
  split
  · rename_i hji
    subst hji
    exact ⟨f n, by rw [hn]; rfl, hk n, hp n, ho n, fun hgrowing => absurd (hj n hn) hgrowing⟩
  · exact ⟨n, hn, .refl n⟩

/-- A new child of a node that may still change. -/
private theorem adopt {p : Nat} {m : Node} (hm : d.get? p = some m) (hp : m.IsGrowing)
    (new : Node) :
    d.GrowsTo (d.adopt p new) := by
  refine ⟨rfl, fun {i n} hn => ?_⟩
  by_cases hip : i = p
  · subst hip
    rw [hm] at hn
    cases hn
    exact ⟨_, get?_adopt_parent hm new, rfl, rfl, rfl, fun hgrowing => absurd hp hgrowing⟩
  · have hi : i ≠ d.size := Nat.ne_of_lt (lt_size_of_get? hn)
    exact ⟨n, by rw [get?_adopt_of_ne hip hi, hn], .refl n⟩

/-- A node that does not change any more is the same in every later document. -/
theorem get?_eq (h : d.GrowsTo d') {i : Nat} {n : Node} (hn : d.get? i = some n)
    (hfinal : ¬ n.IsGrowing) : d'.get? i = some n := by
  obtain ⟨n', hn', hg⟩ := h.get? hn
  rw [hn', hg.eq_of_not_growing hfinal]

/-- So is the parent of a node. -/
theorem parent_eq (h : d.GrowsTo d') {i : Nat} {n : Node} (hn : d.get? i = some n) :
    (d'.get? i).bind Node.parent = n.parent := by
  obtain ⟨n', hn', hg⟩ := h.get? hn
  rw [hn']
  exact hg.parent_eq

/-- No node gets lost. -/
theorem size_le (h : d.GrowsTo d') : d.size ≤ d'.size := by
  obtain ⟨n, hn⟩ := exists_get?_of_lt (Nat.sub_lt d.size_pos Nat.one_pos)
  obtain ⟨n', hn', -⟩ := h.get? hn
  have := lt_size_of_get? hn'
  omega

end Document.GrowsTo

/-! ## Runs -/

/-- An open element may still change. -/
private theorem Document.IsOpen.isGrowing {d : Document} {i : Nat} {n : Node} (h : d.IsOpen i)
    (hn : d.get? i = some n) : n.IsGrowing := by
  obtain ⟨m, hm, hkind, hclosed⟩ := elementState?_eq_some.mp h
  rw [hn] at hm
  cases hm
  exact ⟨hclosed, by simp [hkind]⟩

namespace Stage.Sound

variable {d : Document} {ids : List NodeId} {new : Option Node}

/-- The innermost open element may still change. -/
private theorem top_isGrowing {id : Nat} (h : (Stage.mk d (id :: ids) new).Sound) (n : Node)
    (hn : d.get? id = some n) : n.IsGrowing :=
  ((h.mem_iff id).mp (List.mem_cons_self ..)).isGrowing hn

/-- The root is open to the end. -/
private theorem root_isGrowing {s : Stage} (h : s.Sound) (n : Node)
    (hn : s.document.get? rootId = some n) :
    n.IsGrowing := by
  obtain ⟨m, hm, hkind, hclosed⟩ := h.root_open
  rw [hn] at hm
  cases hm
  exact ⟨hclosed, by simp [hkind]⟩

/-- The node that new nodes go into is there and may still change. -/
private theorem exists_head (h : (Stage.mk d ids new).Sound) :
    ∃ m, d.get? (ids.headD rootId) = some m ∧ m.IsGrowing := by
  obtain ⟨m, hm⟩ := Document.exists_get?_of_lt h.head_lt_size
  refine ⟨m, hm, ?_⟩
  cases ids with
  | nil => exact h.root_isGrowing m hm
  | cons id ids => exact h.top_isGrowing m hm

end Stage.Sound

/-- No move takes anything back. -/
theorem Move.growsTo {s t : Stage} {ms : List Moment} (hm : Move s ms t) (h : s.Sound) :
    s.document.GrowsTo t.document := by
  cases hm with
  | remark | announce => exact .refl _
  | store a => exact .modify h.top_isGrowing (fun _ => rfl) (fun _ => rfl) (fun _ => rfl)
  | widen l selfClosed =>
    exact .modify h.top_isGrowing (fun _ => rfl) (fun _ => rfl)
      (fun n => n.location.offset_extendTo l)
  | close location stop hk =>
    exact .modify h.top_isGrowing (fun _ => rfl) (fun _ => rfl) (fun _ => rfl)
  | text content location foreign =>
    obtain ⟨m, hm, hgrowing⟩ := h.exists_head
    exact .adopt hm hgrowing _
  | place =>
    obtain ⟨m, hm, hgrowing⟩ := h.exists_head
    exact .adopt hm hgrowing _

/-- Every run lets the document grow, move by move. -/
theorem Run.growsTo {s t : Stage} {ms : List Moment} (hr : Run s ms t) (h : s.Sound) :
    s.document.GrowsTo t.document := by
  induction hr with
  | done s => exact .refl _
  | move first _ ih => exact (first.growsTo h).trans (ih (h.move first))

/-- Ending the document takes nothing back either. -/
theorem Stage.Sound.growsTo_ended {s : Stage} (h : s.Sound) : s.document.GrowsTo s.document.ended :=
  .modify h.root_isGrowing (fun _ => rfl) (fun _ => rfl) (fun _ => rfl)

/-! ## Where nodes end -/

/-- Of every node but the root and the open elements it is known where it ends. -/
def Stage.EndsKnown (s : Stage) : Prop :=
  ∀ (i : Nat) (n : Node), s.document.get? i = some n → i ≠ rootId → i ∉ s.openElements →
    n.endOffset.isSome

namespace Stage.EndsKnown

/-- At the start there is only the root. -/
theorem ofLength (length : Nat) : (Stage.ofLength length).EndsKnown := by
  intro i n hn hi
  have hlt : i < 1 := Document.lt_size_of_get? hn
  exact absurd (Nat.lt_one_iff.mp hlt) hi

/-- A change of a node that keeps what is known about its end. -/
private theorem modify {d : Document} {ids : List NodeId} (h : (Stage.mk d ids none).EndsKnown)
    {j : Nat} {f : Node → Node} (hf : ∀ n, (f n).endOffset = n.endOffset) :
    (Stage.mk (d.modify j f) ids none).EndsKnown := by
  intro i n hn hi hopen
  simp only [Document.get?_modify] at hn
  split at hn
  · obtain ⟨m, hm, rfl⟩ := Option.map_eq_some_iff.mp hn
    rw [hf]
    exact h i m hm hi hopen
  · exact h i n hn hi hopen

/-- A new node ends or is open. -/
private theorem adopt {d : Document} {ids ids' : List NodeId} {new : Option Node} {p : Nat}
    {n : Node} (h : (Stage.mk d ids new).EndsKnown) (hp : p < d.size) (hids : ∀ i ∈ ids, i ∈ ids')
    (hn : n.endOffset.isSome ∨ d.size ∈ ids') : (Stage.mk (d.adopt p n) ids' none).EndsKnown := by
  intro i m hm hi hopen
  have hopen' : i ∉ ids := fun hmem => hopen (hids i hmem)
  by_cases hsize : i = d.size
  · subst hsize
    rw [Document.get?_adopt_new hp] at hm
    cases hm
    exact hn.resolve_right hopen
  by_cases hip : i = p
  · subst hip
    obtain ⟨m', hm'⟩ := Document.exists_get?_of_lt hp
    rw [Document.get?_adopt_parent hm'] at hm
    cases hm
    exact h i m' hm' hi hopen'
  · rw [Document.get?_adopt_of_ne hip hsize] at hm
    exact h i m hm hi hopen'

/-- Every move keeps it: a node that is not open any more has just been closed, or is a text. -/
theorem move {s t : Stage} {ms : List Moment} (hm : Move s ms t) (hs : s.Sound) (h : s.EndsKnown) :
    t.EndsKnown := by
  cases hm with
  | remark | announce => exact h
  | store a => exact h.modify fun _ => rfl
  | widen l selfClosed => exact h.modify fun _ => rfl
  | text content location foreign => exact h.adopt hs.head_lt_size (fun _ hi => hi) (.inl rfl)
  | close location stop hk =>
    intro i n hn hi hopen
    rw [Document.get?_close] at hn
    split at hn
    · obtain ⟨m, -, rfl⟩ := Option.map_eq_some_iff.mp hn
      rfl
    · rename_i hne
      exact h i n hn hi fun hmem => (List.mem_cons.mp hmem).elim (Ne.symm hne) hopen
  | place =>
    rw [hs.upcoming_id]
    exact h.adopt hs.head_lt_size (fun _ hi => List.mem_cons_of_mem _ hi)
      (.inr (List.mem_cons_self ..))

end Stage.EndsKnown

/-- So does every run. -/
theorem Run.endsKnown {s t : Stage} {ms : List Moment} (hr : Run s ms t) (hs : s.Sound)
    (h : s.EndsKnown) : t.EndsKnown := by
  induction hr with
  | done s => exact h
  | move first _ ih => exact ih (hs.move first) (h.move first hs)

/-- Every node of a finished document has its bytes. -/
theorem Run.range?_isSome {length : Nat} {ms : List Moment} {d : Document}
    (hr : Run (.ofLength length) ms ⟨d, [], none⟩) {i : Nat} (hi : i < d.size) :
    (d.ended.range? i).isSome := by
  have hends := hr.endsKnown (.ofLength length) (.ofLength length)
  obtain ⟨n, hn⟩ := Document.exists_get?_of_lt hi
  simp only [Document.range?, Document.ended, Document.get?_modify, hn]
  split
  · rfl
  · rename_i hne
    have := hends i n hn (Ne.symm hne) (List.not_mem_nil)
    simpa using this

end HtmlLint
