import HtmlLint.Proofs.Construction.Run
import HtmlLint.Proofs.Document.Tree

/-!
# Every construction grows a tree

At every event the nodes of the document make a tree, except while a new element closes others: it
is made by then and has no parent yet.  Nodes are numbered in document order, because a new node
always goes under the last node on the way from the root along last children: `Stage.Grown` says
that the open elements are the nodes on this way that are elements and open.
-/

namespace HtmlLint

/-- The moment belongs to the closing of an element that has no end tag of its own. -/
def Moment.IsImplicitClose (m : Moment) : Prop :=
  match m.event with
  | .tagClose _ _ kind _ => kind = .implicit
  | .elementReady id _ => (m.document.get? id).bind Node.closed = some .implicit
  | _ => False

/-- The document of a stage is a tree, numbered in document order, whose last path leads to each
open element. -/
structure Stage.Grown (s : Stage) : Prop where
  tree : s.document.IsTree
  visits : s.document.Visits [rootId] (List.range s.document.size)
  path : ∀ id : Nat, id ∈ rootId :: s.openElements → s.document.LastPath rootId id

namespace Stage.Grown

variable {s t : Stage} {ms : List Moment}

/-- At the start the tree is the root. -/
theorem ofLength (length : Nat) : (Stage.ofLength length).Grown := by
  have hone : ∀ {i : Nat} {n : Node}, (Stage.ofLength length).document.get? i = some n →
      i = rootId ∧ n.id = rootId ∧ n.parent = none ∧ n.children = [] := by
    intro i n hn
    have hi : i < 1 := Document.lt_size_of_get? hn
    obtain rfl : i = 0 := by omega
    cases hn
    exact ⟨rfl, rfl, rfl, rfl⟩
  refine ⟨⟨?_, ?_, ?_, ?_, ?_⟩, ?_, ?_⟩
  · intro i n hn
    obtain ⟨rfl, hid, -⟩ := hone hn
    exact hid
  · intro i n hn
    obtain ⟨rfl, -, hp, -⟩ := hone hn
    simp [hp]
  · intro i p n hn hp
    obtain ⟨-, -, hnone, -⟩ := hone hn
    rw [hnone] at hp
    cases hp
  · intro i p n m hn hm
    obtain ⟨-, -, hnone, -⟩ := hone hn
    obtain ⟨-, -, -, hc⟩ := hone hm
    simp [hnone, hc]
  · intro p c m hm hc
    obtain ⟨-, -, -, hnil⟩ := hone hm
    simp [hnil] at hc
  · exact Document.Visits.singleton_iff.mpr ⟨_, [], rfl, rfl, .nil⟩
  · intro id hid
    obtain rfl : id = rootId := by simpa [Stage.ofLength] using hid
    exact .refl _

/-- A change of one node that leaves its number, its parent and its children alone. -/
private theorem modify {d : Document} {ids ids' : List NodeId} {new new' : Option Node}
    (h : (Stage.mk d ids new).Grown) (hids : ∀ id ∈ ids', id ∈ ids) {j : Nat} {f : Node → Node}
    (hid : ∀ n, (f n).id = n.id) (hp : ∀ n, (f n).parent = n.parent)
    (hc : ∀ n, (f n).children = n.children) : (Stage.mk (d.modify j f) ids' new').Grown := by
  have hsame : ∀ i : Nat, ((d.modify j f).get? i).map Node.children =
      (d.get? i).map Node.children := by
    intro i
    rw [Document.get?_modify]
    split
    · cases d.get? i <;> simp [hc]
    · rfl
  refine ⟨h.tree.modify hid hp hc, ?_, ?_⟩
  · show Document.Visits _ _ (List.range (d.modify j f).size)
    rw [Document.size_modify]
    exact h.visits.congr fun i _ => hsame i
  · intro id hmem
    refine (h.path id ?_).congr h.tree fun i _ => hsame i
    rcases List.mem_cons.mp hmem with rfl | hmem
    · exact List.mem_cons_self ..
    · exact List.mem_cons_of_mem _ (hids id hmem)

/-- The current node is the last one on the path; a new node goes under it. -/
private theorem adopt {d : Document} {ids : List NodeId} {new : Option Node}
    (h : (Stage.mk d ids new).Grown) (hs : (Stage.mk d ids new).Sound) {n : Node}
    (hid : n.id = d.size) (hc : n.children = []) :
    (Stage.mk (d.adopt (ids.headD rootId) n) ids none).Grown ∧
    (Stage.mk (d.adopt (ids.headD rootId) n) (n.id :: ids) none).Grown := by
  have hp := hs.head_lt_size
  have hcur : ids.headD rootId ∈ rootId :: ids := by cases ids <;> simp
  have htree := h.tree.adopt hp hid hc
  have hvisits : (d.adopt (ids.headD rootId) n).Visits [rootId]
      (List.range (d.adopt (ids.headD rootId) n).size) := by
    rw [Document.size_adopt, List.range_succ]
    exact h.visits.adopt (h.path _ hcur) List.nodup_range hp hc
  -- the open elements are no younger than the current one, so the paths to them stay
  have hpath : ∀ id : Nat, id ∈ rootId :: ids →
      (d.adopt (ids.headD rootId) n).LastPath rootId id := by
    intro id hmem
    have hle : id ≤ ids.headD rootId := by
      rcases List.mem_cons.mp hmem with rfl | hmem
      · exact Nat.zero_le _
      · cases ids with
        | nil => cases hmem
        | cons top ids =>
          rcases List.mem_cons.mp hmem with rfl | hmem
          · exact Nat.le_refl _
          · exact Nat.le_of_lt ((List.pairwise_cons.mp hs.decreasing).1 id hmem)
    refine (h.path id hmem).congr h.tree fun i hi => Document.map_children_adopt ?_ ?_ n
    · exact Nat.ne_of_lt (Nat.lt_of_lt_of_le hi hle)
    · exact Nat.lt_of_lt_of_le hi (Nat.le_trans hle (Nat.le_of_lt hp))
  refine ⟨⟨htree, hvisits, hpath⟩, ⟨htree, hvisits, ?_⟩⟩
  intro id hmem
  rcases List.mem_cons.mp hmem with rfl | hmem
  · exact .refl _
  · rcases List.mem_cons.mp hmem with rfl | hmem
    · -- the new element is the last child of the current node
      obtain ⟨m, hm⟩ := Document.exists_get?_of_lt hp
      rw [hid]
      exact (hpath _ hcur).snoc (Document.get?_adopt_parent hm n) (by simp)
    · exact hpath id (List.mem_cons_of_mem _ hmem)

/-- Every move keeps the tree: a new node is the last child of the innermost open element. -/
theorem move (hm : Move s ms t) (hs : s.Sound) (h : s.Grown) : t.Grown := by
  cases hm with
  | remark => exact h
  | store a =>
    refine h.modify (fun _ hid => hid) ?_ ?_ ?_ <;> intro n <;> rfl
  | widen l b =>
    refine h.modify (fun _ hid => hid) ?_ ?_ ?_ <;> intro n <;> rfl
  | text content location foreign => exact (h.adopt hs rfl rfl).1
  | announce => exact ⟨h.tree, h.visits, h.path⟩
  | close location stop hk =>
    refine h.modify (fun _ hid => List.mem_cons_of_mem _ hid) ?_ ?_ ?_ <;> intro n <;> rfl
  | @place d ids n =>
    obtain ⟨tag, location, foreign, void, hn⟩ := hs.upcoming_eq n rfl
    exact (h.adopt hs (by rw [hn]; rfl) (by rw [hn]; rfl)).2

/-- An observer sees a tree at every moment of a move that is not an implicit close. -/
private theorem isTree_of_move (hm : Move s ms t) (hs : s.Sound) (h : s.Grown) :
    ∀ m ∈ ms, m.IsImplicitClose ∨ m.document.IsTree := by
  have ht := h.move hm hs
  cases hm with
  | remark => simpa using .inr h.tree
  | store a => simpa using .inr h.tree
  | widen => simp
  | text => simp
  | announce => simp
  | @close d id ids new kind location stop hk =>
    cases new with
    | none =>
      intro m hmem
      simp only [List.mem_cons, List.not_mem_nil, or_false] at hmem
      obtain rfl | rfl := hmem <;> exact .inr ht.tree
    | some n =>
      -- here the upcoming element is visible beside the tree
      obtain rfl := hk rfl
      have hid : id < d.size := hs.lt_size (List.mem_cons_self ..)
      obtain ⟨o, ho⟩ := Document.exists_get?_of_lt hid
      intro m hmem
      simp only [List.mem_cons, List.not_mem_nil, or_false] at hmem
      obtain rfl | rfl := hmem
      · exact .inl rfl
      · refine .inl ?_
        show (((d.close id .implicit stop).push n).get? id).bind Node.closed = some .implicit
        rw [Document.get?_push_of_lt (by simpa using hid), Document.get?_close, if_pos rfl, ho]
        rfl
  | place =>
    intro m hmem
    obtain rfl := List.mem_singleton.mp hmem
    exact .inr ht.tree

/-- So it is for a run. -/
theorem run (hr : Run s ms t) (hs : s.Sound) (h : s.Grown) :
    t.Grown ∧ ∀ m ∈ ms, m.IsImplicitClose ∨ m.document.IsTree := by
  induction hr with
  | done s => exact ⟨h, by simp⟩
  | move first _ ih =>
    obtain ⟨hend, hlater⟩ := ih (hs.move first) (h.move first hs)
    refine ⟨hend, fun m hm => ?_⟩
    rcases List.mem_append.mp hm with hm | hm
    · exact h.isTree_of_move first hs m hm
    · exact hlater m hm

/-- Ending the document leaves the tree as it is. -/
private theorem ended {d : Document} {ids : List NodeId} (h : (Stage.mk d ids none).Grown) :
    (Stage.mk d.ended ids none).Grown := by
  refine h.modify (fun _ hid => hid) ?_ ?_ ?_ <;> intro n <;> rfl

end Stage.Grown

/-- What is made in the end is a tree. -/
theorem Construction.record_isTree (v : Vocabulary) (ts : List Token) (length : Nat) :
    (record v ts length).1.IsTree := by
  obtain ⟨ms, d, hrun, hrecord⟩ := record_run v ts length
  obtain ⟨hgrown, -⟩ := (Stage.Grown.ofLength length).run hrun (.ofLength length)
  rw [hrecord]
  exact hgrown.ended.tree

/-- The documents of a construction, whatever its tokens.  At every moment that is not an implicit
close, and in the end, the nodes make a tree in which every way upwards leads to the root.  In the
end document order, the order of the numbers and the order of the listings of nodes and of elements
are the same. -/
theorem record_grows_tree (v : Vocabulary) (ts : List Token) (length : Nat) :
    let made := Construction.record v ts length
    (∀ m ∈ made.2, ¬m.IsImplicitClose → m.document.IsTree ∧ m.document.AncestorsReachRoot) ∧
    made.1.IsTree ∧ made.1.AncestorsReachRoot ∧
    (∀ l, made.1.Visits [rootId] l ↔ l = List.range made.1.size) ∧
    made.1.nodes.toList.map Node.id = List.range made.1.size ∧
    made.1.elements.map Node.id =
      (List.range made.1.size).filter fun i => (made.1.node i).isElement := by
  obtain ⟨ms, d, hrun, hrecord⟩ := Construction.record_run v ts length
  have hstart := Stage.Grown.ofLength length
  obtain ⟨hgrown, hmoments⟩ := hstart.run hrun (.ofLength length)
  have hend := hgrown.ended
  simp only [hrecord]
  refine ⟨?_, hend.tree, hend.tree.ancestorsReachRoot, ?_, hend.tree.map_id_nodes,
    hend.tree.map_id_elements⟩
  · intro m hm himplicit
    have htree : m.document.IsTree := by
      simp only [List.cons_append, List.mem_cons, List.mem_append, List.not_mem_nil, or_false] at hm
      rcases hm with rfl | hm | rfl
      · exact hstart.tree
      · exact (hmoments m hm).resolve_left himplicit
      · exact hend.tree
    exact ⟨htree, htree.ancestorsReachRoot⟩
  · intro l
    constructor
    · exact fun hl => hl.unique hend.visits
    · rintro rfl
      exact hend.visits

end HtmlLint
