import HtmlLint.Proofs.Document.Nodes

/-!
# Documents are trees

`Document.IsTree` says that the numbers which nodes hold of each other fit together: every node but
the root stands in the list of children of exactly one node, its parent, which is older.
`Document.Visits` is the traversal of such a tree in document order, a node before its children.

A tree stays a tree when a new node becomes the last child of a node (`IsTree.adopt`), and the
traversal then ends with the new node if that node lay on the last path from the root
(`Visits.adopt`): the way that leads from a node to its last child, to the last child of that, and
so on.
-/

namespace HtmlLint

namespace Document

/-- Nodes and their numbers make a tree below the root. -/
structure IsTree (d : Document) : Prop where
  id_eq : ∀ {i : Nat} {n : Node}, d.get? i = some n → n.id = i
  parent_eq_none_iff : ∀ {i : Nat} {n : Node}, d.get? i = some n → (n.parent = none ↔ i = rootId)
  parent_lt : ∀ {i p : Nat} {n : Node}, d.get? i = some n → n.parent = some p → p < i
  /-- a node stands once among the children of its parent and not at all among those of another
  node -/
  count_children : ∀ {i p : Nat} {n m : Node}, d.get? i = some n → d.get? p = some m →
    m.children.count i = if n.parent = some p then 1 else 0
  child_lt : ∀ {p c : Nat} {m : Node}, d.get? p = some m → c ∈ m.children → c < d.size

/-- An element is found under its number. -/
theorem IsTree.get?_id {d : Document} (h : d.IsTree) {n : Node} (hn : n ∈ d.elements) :
    d.get? n.id = some n := by
  obtain ⟨⟨i, hi⟩, -⟩ := mem_elements.mp hn
  rw [h.id_eq hi]
  exact hi

/-! ## Parents and ancestors -/

/-- The children of a node are the nodes that call it their parent. -/
theorem IsTree.mem_children_iff {d : Document} (h : d.IsTree) {i p : Nat} {n m : Node}
    (hi : d.get? i = some n) (hp : d.get? p = some m) : i ∈ m.children ↔ n.parent = some p := by
  have := h.count_children hi hp
  rw [← List.count_pos_iff, this]
  split <;> simp_all

/-- Children are younger than their parent. -/
theorem IsTree.lt_of_mem_children {d : Document} (h : d.IsTree) {p c : Nat} {m : Node}
    (hp : d.get? p = some m) (hc : c ∈ m.children) : p < c := by
  obtain ⟨n, hn⟩ := exists_get?_of_lt (h.child_lt hp hc)
  exact h.parent_lt hn ((h.mem_children_iff hn hp).mp hc)

/-- The parent comes first among the nodes around a node. -/
theorem IsTree.ancestors_eq {d : Document} (h : d.IsTree) {i p : Nat} {n m : Node}
    (hn : d.get? i = some n) (hp : n.parent = some p) (hm : d.get? p = some m) :
    d.ancestors i = m :: d.ancestors p := by
  rw [ancestors]
  simp only [hn, Option.bind_some, hp, if_pos (h.parent_lt hn hp), hm]

/-- The elements among the children of a node are those that have it as their parent. -/
theorem IsTree.mem_childElements_iff {d : Document} (h : d.IsTree) {p : Nat} {n m : Node}
    (hm : d.get? p = some m) :
    n ∈ d.childElements p ↔ d.get? n.id = some n ∧ n.isElement = true ∧ n.parent = some p := by
  rw [childElements, hm, List.mem_filter, List.mem_filterMap]
  constructor
  · rintro ⟨⟨j, hj, hn⟩, helement⟩
    rw [h.id_eq hn]
    exact ⟨hn, helement, (h.mem_children_iff hn hm).mp hj⟩
  · rintro ⟨hn, helement, hp⟩
    exact ⟨⟨n.id, (h.mem_children_iff hn hm).mpr hp, hn⟩, helement⟩

/-- The way upwards from any node but the root ends at the root. -/
def AncestorsReachRoot (d : Document) : Prop :=
  ∀ i : Nat, i < d.size → i ≠ rootId → (d.ancestors i).getLast? = some d.root

/-- From every node the parents lead to the root. -/
theorem IsTree.ancestorsReachRoot {d : Document} (h : d.IsTree) : d.AncestorsReachRoot := by
  intro i hi hr
  -- a parent is older than its child, so the induction is on the number of the node
  induction i using Nat.strongRecOn with
  | ind i ih =>
    obtain ⟨n, hn⟩ := exists_get?_of_lt hi
    cases hp : n.parent with
    | none => exact absurd ((h.parent_eq_none_iff hn).mp hp) hr
    | some p =>
      have hlt : p < i := h.parent_lt hn hp
      have hps : p < d.size := Nat.lt_trans hlt hi
      obtain ⟨m, hm⟩ := exists_get?_of_lt hps
      rw [h.ancestors_eq hn hp hm]
      by_cases hpr : p = rootId
      · -- the root itself has no ancestors
        subst hpr
        have hroot : d.root = m := by
          have := d.get?_rootId
          rw [hm] at this
          exact (Option.some.inj this).symm
        have hnone : d.ancestors rootId = [] := by
          rw [ancestors]
          simp only [hm, Option.bind_some, (h.parent_eq_none_iff hm).mpr rfl]
        rw [hnone, hroot]
        rfl
      · have hlast := ih p hlt hps hpr
        rw [List.getLast?_cons, hlast]
        rfl

/-! ## Changes that keep a tree -/

/-- A change of a node that leaves its number, its parent and its children alone. -/
theorem IsTree.modify {d : Document} (h : d.IsTree) {j : Nat} {f : Node → Node}
    (hid : ∀ n, (f n).id = n.id) (hp : ∀ n, (f n).parent = n.parent)
    (hc : ∀ n, (f n).children = n.children) : (d.modify j f).IsTree := by
  -- every node of the new document is like one of the old in what a tree is made of
  have hlike : ∀ {i n}, (d.modify j f).get? i = some n →
      ∃ o, d.get? i = some o ∧ n.id = o.id ∧ n.parent = o.parent ∧ n.children = o.children := by
    intro i n hn
    rw [get?_modify] at hn
    split at hn
    · obtain ⟨o, ho, rfl⟩ := Option.map_eq_some_iff.mp hn
      exact ⟨o, ho, hid o, hp o, hc o⟩
    · exact ⟨n, hn, rfl, rfl, rfl⟩
  refine ⟨?_, ?_, ?_, ?_, ?_⟩
  · intro i n hn
    obtain ⟨o, ho, hi, -, -⟩ := hlike hn
    rw [hi]
    exact h.id_eq ho
  · intro i n hn
    obtain ⟨o, ho, -, hpar, -⟩ := hlike hn
    rw [hpar]
    exact h.parent_eq_none_iff ho
  · intro i p n hn hpn
    obtain ⟨o, ho, -, hpar, -⟩ := hlike hn
    exact h.parent_lt ho (hpar ▸ hpn)
  · intro i p n m hn hm
    obtain ⟨o, ho, -, hpar, -⟩ := hlike hn
    obtain ⟨q, hq, -, -, hch⟩ := hlike hm
    rw [hpar, hch]
    exact h.count_children ho hq
  · intro p c m hm hcm
    obtain ⟨q, hq, -, -, hch⟩ := hlike hm
    rw [size_modify]
    exact h.child_lt hq (hch ▸ hcm)

/-- The nodes of a document with a new last child, seen from the document before. -/
private theorem get?_adopt_eq_some {d : Document} {p i : Nat} {n x : Node} (hp : p < d.size)
    (h : (d.adopt p n).get? i = some x) :
    i = d.size ∧ x = { n with parent := some p } ∨
    i < d.size ∧ ∃ y, d.get? i = some y ∧ x.id = y.id ∧ x.parent = y.parent ∧
      x.children = y.children ++ if i = p then [d.size] else [] := by
  have hi : i < d.size + 1 := by simpa using lt_size_of_get? h
  by_cases his : i = d.size
  · subst his
    rw [get?_adopt_new hp] at h
    exact .inl ⟨rfl, (Option.some.inj h).symm⟩
  · obtain ⟨y, hy, rfl⟩ := exists_of_get?_adopt h his
    exact .inr ⟨by omega, y, hy, rfl, rfl, rfl⟩

/-- A new node without children, numbered next, may become the last child of any node. -/
theorem IsTree.adopt {d : Document} (h : d.IsTree) {p : Nat} (hp : p < d.size) {n : Node}
    (hid : n.id = d.size) (hc : n.children = []) : (d.adopt p n).IsTree := by
  have hroot : d.size ≠ rootId := Nat.ne_of_gt d.size_pos
  refine ⟨?_, ?_, ?_, ?_, ?_⟩
  · intro i x hx
    obtain ⟨rfl, rfl⟩ | ⟨-, y, hy, hi, -⟩ := get?_adopt_eq_some hp hx
    · exact hid
    · rw [hi]; exact h.id_eq hy
  · intro i x hx
    obtain ⟨rfl, rfl⟩ | ⟨-, y, hy, -, hpar, -⟩ := get?_adopt_eq_some hp hx
    · simp [hroot]
    · rw [hpar]; exact h.parent_eq_none_iff hy
  · intro i q x hx hq
    obtain ⟨rfl, rfl⟩ | ⟨-, y, hy, -, hpar, -⟩ := get?_adopt_eq_some hp hx
    · cases hq; exact hp
    · exact h.parent_lt hy (hpar ▸ hq)
  · intro i q x z hx hz
    obtain ⟨rfl, rfl⟩ | ⟨hi, y, hy, -, hpar, -⟩ := get?_adopt_eq_some hp hx
    · obtain ⟨rfl, rfl⟩ | ⟨hq, w, hw, -, -, hch⟩ := get?_adopt_eq_some hp hz
      · -- the new node is not its own child
        simp [hc, Nat.ne_of_lt hp]
      · -- no node had a child of this number before
        have hnot : d.size ∉ w.children := fun hm => Nat.lt_irrefl _ (h.child_lt hw hm)
        rw [hch, List.count_append, List.count_eq_zero.mpr hnot]
        by_cases hqp : q = p
        · simp [hqp]
        · simp [hqp, Ne.symm hqp]
    · obtain ⟨rfl, rfl⟩ | ⟨hq, w, hw, -, -, hch⟩ := get?_adopt_eq_some hp hz
      · -- an older node is not a child of the new one
        have hne : y.parent ≠ some d.size := by
          intro heq
          have := h.parent_lt hy heq
          omega
        rw [hpar]
        simp [hc, hne]
      · -- between two older nodes nothing has changed
        rw [hch, hpar, List.count_append, h.count_children hy hw]
        have hne : d.size ≠ i := by omega
        split <;> split <;> simp [hne]
  · intro q c z hz hcz
    rw [size_adopt]
    obtain ⟨rfl, rfl⟩ | ⟨-, w, hw, -, -, hch⟩ := get?_adopt_eq_some hp hz
    · simp [hc] at hcz
    · rw [hch, List.mem_append] at hcz
      rcases hcz with hcw | hcn
      · have := h.child_lt hw hcw
        omega
      · split at hcn
        · have : c = d.size := List.mem_singleton.mp hcn
          omega
        · cases hcn

/-! ## Listings -/

/-- The nodes in the order of their numbers. -/
theorem IsTree.map_id_nodes {d : Document} (h : d.IsTree) :
    d.nodes.toList.map Node.id = List.range d.size := by
  refine List.ext_getElem? fun i => ?_
  rw [List.getElem?_map, Array.getElem?_toList]
  show (d.get? i).map Node.id = _
  by_cases hi : i < d.size
  · obtain ⟨n, hn⟩ := exists_get?_of_lt hi
    rw [hn, List.getElem?_range hi, Option.map_some, h.id_eq hn]
  · rw [get?_eq_none_iff.mpr (by omega), List.getElem?_eq_none (by simp; omega)]
    rfl

/-- The elements in the order of their numbers. -/
theorem IsTree.map_id_elements {d : Document} (h : d.IsTree) :
    d.elements.map Node.id = (List.range d.size).filter fun i => (d.node i).isElement := by
  rw [← h.map_id_nodes, List.filter_map, elements]
  congr 1
  refine List.filter_congr fun n hn => ?_
  obtain ⟨i, hi⟩ := List.getElem?_of_mem hn
  have hget : d.get? i = some n := by rwa [Array.getElem?_toList] at hi
  show n.isElement = (d.node n.id).isElement
  rw [h.id_eq hget, node_of_get? hget]

/-! ## Document order -/

/-- Visiting the first nodes one after the other, each with everything in it, meets the second
nodes. -/
inductive Visits (d : Document) : List NodeId → List NodeId → Prop where
  | nil : Visits d [] []
  | cons {id : NodeId} {n : Node} {ids inside after : List NodeId} (hn : d.get? id = some n)
      (hin : Visits d n.children inside) (hafter : Visits d ids after) :
      Visits d (id :: ids) (id :: inside ++ after)

namespace Visits

variable {d d' : Document} {ids ids' l l' : List NodeId}

/-- One list of trees after another. -/
private theorem append (h : Visits d ids l) (h' : Visits d ids' l') :
    Visits d (ids ++ ids') (l ++ l') := by
  induction h with
  | nil => exact h'
  | cons hn hin _ _ ih =>
    rw [List.append_assoc]
    exact .cons hn hin ih

/-- A visit of several trees can be cut between any two of them. -/
private theorem of_append (h : Visits d (ids ++ ids') l) :
    ∃ a b, l = a ++ b ∧ Visits d ids a ∧ Visits d ids' b := by
  induction ids generalizing l with
  | nil => exact ⟨[], l, rfl, .nil, h⟩
  | cons id ids ih =>
    cases h with
    | cons hn hin hafter =>
      obtain ⟨a, b, rfl, ha, hb⟩ := ih hafter
      exact ⟨_, b, by simp, .cons hn hin ha, hb⟩

/-- Visiting one node: the node itself, and then its children. -/
theorem singleton_iff {id : NodeId} :
    Visits d [id] l ↔ ∃ n inside, d.get? id = some n ∧ l = id :: inside ∧
    Visits d n.children inside := by
  constructor
  · intro h
    cases h with
    | cons hn hin hafter =>
      cases hafter
      exact ⟨_, _, hn, by simp, hin⟩
  · rintro ⟨n, inside, hn, rfl, hin⟩
    simpa using Visits.cons hn hin .nil

/-- The visit depends only on the children of the nodes it meets. -/
theorem congr (h : Visits d ids l)
    (hc : ∀ i ∈ l, (d'.get? i).map Node.children = (d.get? i).map Node.children) :
    Visits d' ids l := by
  induction h with
  | nil => exact .nil
  | @cons id n ids inside after hn hin hafter ih ih' =>
    have hid := hc id (by simp)
    rw [hn, Option.map_some] at hid
    obtain ⟨m, hm, hch⟩ := Option.map_eq_some_iff.mp hid
    refine .cons hm ?_ (ih' fun i hi => hc i (by simp [hi]))
    rw [hch]
    exact ih fun i hi => hc i (by simp [hi])

/-- There is only one way to visit nodes. -/
theorem unique (h : Visits d ids l) (h' : Visits d ids l') : l = l' := by
  induction h generalizing l' with
  | nil => cases h'; rfl
  | cons hn _ _ ih ih' =>
    cases h' with
    | cons hn' hin' hafter' =>
      rw [hn] at hn'
      cases hn'
      rw [ih hin', ih' hafter']

/-- Every node that is met is there. -/
private theorem lt_size (h : Visits d ids l) {i : Nat} (hi : i ∈ l) : i < d.size := by
  induction h with
  | nil => cases hi
  | cons hn _ _ ih ih' =>
    simp only [List.cons_append, List.mem_cons, List.mem_append] at hi
    rcases hi with rfl | hi | hi
    · exact lt_size_of_get? hn
    · exact ih hi
    · exact ih' hi

end Visits

/-- The second node is reached from the first by going to last children only. -/
inductive LastPath (d : Document) : NodeId → NodeId → Prop where
  | refl (p : NodeId) : LastPath d p p
  | step {p c q : NodeId} {m : Node} (hm : d.get? p = some m) (hc : m.children.getLast? = some c)
      (rest : LastPath d c q) : LastPath d p q

namespace LastPath

variable {d d' : Document} {p q : Nat}

/-- The last path leads to younger nodes. -/
private theorem le (h : LastPath d p q) (hd : d.IsTree) : p ≤ q := by
  induction h with
  | refl p => exact Nat.le_refl p
  | step hm hc _ ih =>
    have := hd.lt_of_mem_children hm (List.mem_of_getLast? hc)
    exact Nat.le_trans (Nat.le_of_lt this) ih

/-- A path may be prolonged by the last child of its last node. -/
theorem snoc {c : Nat} {m : Node} (h : LastPath d p q) (hm : d.get? q = some m)
    (hc : m.children.getLast? = some c) : LastPath d p c := by
  induction h with
  | refl p => exact .step hm hc (.refl c)
  | step hm' hc' _ ih => exact .step hm' hc' (ih hm)

/-- A path lies in what is visited from its first node on. -/
private theorem mem_visits {l : List NodeId} (h : LastPath d p q) (hv : Visits d [p] l) :
    q ∈ l := by
  induction h generalizing l with
  | refl p =>
    obtain ⟨n, inside, -, rfl, -⟩ := Visits.singleton_iff.mp hv
    exact List.mem_cons_self ..
  | step hm hc _ ih =>
    obtain ⟨n, inside, hn, rfl, hin⟩ := Visits.singleton_iff.mp hv
    rw [hm] at hn
    cases hn
    obtain ⟨init, hinit⟩ := List.getLast?_eq_some_iff.mp hc
    rw [hinit] at hin
    obtain ⟨a, b, rfl, -, hb⟩ := hin.of_append
    exact List.mem_cons_of_mem _ (List.mem_append_right _ (ih hb))

/-- A path is not touched by what happens to nodes that are no older than its last one. -/
theorem congr (h : LastPath d p q) (hd : d.IsTree)
    (hc : ∀ i : Nat, i < q → (d'.get? i).map Node.children = (d.get? i).map Node.children) :
    LastPath d' p q := by
  induction h with
  | refl p => exact .refl p
  | @step p c q m hm hlast rest ih =>
    have hpc : p < c := hd.lt_of_mem_children hm (List.mem_of_getLast? hlast)
    have hp := hc p (Nat.lt_of_lt_of_le hpc (rest.le hd))
    rw [hm, Option.map_some] at hp
    obtain ⟨m', hm', hch⟩ := Option.map_eq_some_iff.mp hp
    exact .step hm' (hch ▸ hlast) (ih hc)

end LastPath

/-- Adding a last child changes the children of no other older node. -/
theorem map_children_adopt {d : Document} {p i : Nat} (hip : i ≠ p) (hi : i < d.size) (n : Node) :
    ((d.adopt p n).get? i).map Node.children = (d.get? i).map Node.children := by
  rw [get?_adopt_of_ne hip (Nat.ne_of_lt hi)]

/-- Where a node on the last path gets a new last child, the visit ends with the new node. -/
theorem Visits.adopt {d : Document} {p q : Nat} {l : List NodeId} {n : Node} (hv : Visits d [p] l)
    (hpath : LastPath d p q) (hl : l.Nodup) (hq : q < d.size) (hn : n.children = []) :
    Visits (d.adopt q n) [p] (l ++ [d.size]) := by
  -- a visit that does not meet `q` does not change
  have hframe : ∀ {ids l}, Visits d ids l → q ∉ l → Visits (d.adopt q n) ids l := by
    intro ids l hv hql
    refine hv.congr fun i hi => map_children_adopt ?_ (hv.lt_size hi) n
    rintro rfl
    exact hql hi
  induction hpath generalizing l with
  | refl q =>
    obtain ⟨m, inside, hm, rfl, hin⟩ := singleton_iff.mp hv
    have hnew : Visits (d.adopt q n) [d.size] [d.size] := by
      refine singleton_iff.mpr ⟨_, [], get?_adopt_new hq n, rfl, ?_⟩
      show Visits _ n.children []
      rw [hn]
      exact .nil
    refine singleton_iff.mpr ⟨_, inside ++ [d.size], get?_adopt_parent hm n, rfl, ?_⟩
    exact (hframe hin (List.nodup_cons.mp hl).1).append hnew
  | @step p c q m hm hc rest ih =>
    obtain ⟨m', inside, hm', rfl, hin⟩ := singleton_iff.mp hv
    rw [hm] at hm'
    cases hm'
    obtain ⟨init, hinit⟩ := List.getLast?_eq_some_iff.mp hc
    rw [hinit] at hin
    obtain ⟨a, b, rfl, ha, hb⟩ := hin.of_append
    -- `q` is met inside the last child, hence nowhere else
    have hqb : q ∈ b := rest.mem_visits hb
    obtain ⟨hp, hab⟩ := List.nodup_cons.mp hl
    obtain ⟨-, hbn, hdisj⟩ := List.nodup_append.mp hab
    have hqa : q ∉ a := fun hqa => hdisj q hqa q hqb rfl
    have hpq : p ≠ q := fun h => hp (h ▸ List.mem_append_right _ hqb)
    have hlast := ih hb hbn hq hframe
    have hget : (d.adopt q n).get? p = some m := by
      rw [get?_adopt_of_ne hpq (Nat.ne_of_lt (lt_size_of_get? hm))]
      exact hm
    refine singleton_iff.mpr ⟨m, a ++ (b ++ [d.size]), hget, by simp, ?_⟩
    rw [hinit]
    exact (hframe ha hqa).append hlast

end Document

end HtmlLint
