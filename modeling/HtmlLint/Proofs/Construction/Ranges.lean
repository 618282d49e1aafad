import HtmlLint.Proofs.Construction.Course
import HtmlLint.Proofs.Construction.Growth
import HtmlLint.Proofs.Construction.Tree
import HtmlLint.Proofs.Document.Laminar

/-!
# The ranges of a document are laminar

While a document is made, only what lies before the byte that has been reached is known of its
nodes.  What is known of their ranges nests like the nodes (`Document.NestsBefore`), and every
advance keeps this, because

* a node is closed only when all its children are, where the construction has reached,
* a new node starts where the construction has reached, at a time when its siblings are closed, and
* a start tag that still becomes wider belongs to an element without children.

When all elements are closed and the root ends with the source, the ranges of all nodes are known:
`parse_isLaminar`.
-/

namespace HtmlLint

/-- The node is not empty, and what is known of it lies before byte `k`. -/
structure Node.ExtendsTo (k : Nat) (n : Node) : Prop where
  nonempty : n.location.offset < n.location.stop
  stop_le : n.location.stop ≤ k
  ends : ∀ stop, n.endOffset = some stop → n.location.stop ≤ stop ∧ stop ≤ k

/-- What lies before a byte lies before every later one. -/
private theorem Node.ExtendsTo.mono {k k' : Nat} {n : Node} (h : n.ExtendsTo k) (hk : k ≤ k') :
    n.ExtendsTo k' := by
  refine ⟨h.nonempty, Nat.le_trans h.stop_le hk, fun stop hstop => ?_⟩
  obtain ⟨hle, hend⟩ := h.ends stop hstop
  exact ⟨hle, Nat.le_trans hend hk⟩

namespace Document

/-- The node has ended by byte `k`. -/
def EndsBy (d : Document) (k : Nat) (c : NodeId) : Prop :=
  ∀ n, d.get? c = some n → ∃ stop, n.endOffset = some stop ∧ stop ≤ k

/-- What has ended by a byte has ended by every later one. -/
private theorem EndsBy.mono {d : Document} {k k' c : Nat} (h : d.EndsBy k c) (hk : k ≤ k') :
    d.EndsBy k' c := by
  intro n hn
  obtain ⟨stop, hstop, hle⟩ := h n hn
  exact ⟨stop, hstop, Nat.le_trans hle hk⟩

/-- A new node does not change what has ended. -/
private theorem EndsBy.adopt {d : Document} {k c p : Nat} {n : Node} (h : d.EndsBy k c)
    (hc : c ≠ d.size) :
    (d.adopt p n).EndsBy k c := by
  intro x hx
  obtain ⟨y, hy, rfl⟩ := exists_of_get?_adopt hx hc
  exact h y hy

/-- A node with a child was there before a new node came, and so was the child, if it is not the new
node. -/
private theorem IsTree.exists_of_child_adopt {d : Document} (ht : d.IsTree) {p q c : Nat}
    {n x : Node} (hp : p < d.size) (hn : n.children = []) (hx : (d.adopt p n).get? q = some x)
    (hc : c ∈ x.children) :
    ∃ y, d.get? q = some y ∧ x.location = y.location ∧ x.endOffset = y.endOffset ∧
      (c ∈ y.children ∧ c ≠ d.size ∨ c = d.size ∧ q = p) := by
  -- the new node has no children itself
  by_cases hq : q = d.size
  · subst hq
    rw [get?_adopt_new hp] at hx
    cases hx
    rw [hn] at hc
    cases hc
  · obtain ⟨y, hy, rfl⟩ := exists_of_get?_adopt hx hq
    refine ⟨y, hy, rfl, rfl, ?_⟩
    cases List.mem_append.mp hc with
    | inl hc => exact .inl ⟨hc, Nat.ne_of_lt (ht.child_lt hy hc)⟩
    | inr hc =>
      split at hc
      · rename_i hqp
        exact .inr ⟨List.mem_singleton.mp hc, hqp⟩
      · cases hc

/-- At the end of the source only the root changes: it ends there. -/
theorem exists_of_get?_ended {d : Document} {i : Nat} {x : Node} (h : d.ended.get? i = some x) :
    ∃ y, d.get? i = some y ∧
      x = { y with endOffset := if i = rootId then some d.sourceLength else y.endOffset } := by
  rw [ended, get?_modify] at h
  by_cases hi : i = rootId
  · rw [if_pos (Eq.symm hi)] at h
    obtain ⟨y, hy, rfl⟩ := Option.map_eq_some_iff.mp h
    exact ⟨y, hy, by rw [if_pos hi]⟩
  · rw [if_neg (Ne.symm hi)] at h
    exact ⟨x, h, by rw [if_neg hi]⟩

/-- What is known before byte `k` of the ranges of the nodes nests like the nodes: a child starts
after the start tag of its parent, ends before its parent does, and ends before the next child
starts. -/
structure NestsBefore (k : Nat) (d : Document) : Prop where
  extends_to : ∀ {i : Nat} {n : Node}, d.get? i = some n → i ≠ rootId → n.ExtendsTo k
  child_start : ∀ {p c : Nat} {m n : Node}, d.get? p = some m → c ∈ m.children → d.get? c = some n →
    p ≠ rootId → m.location.stop ≤ n.location.offset
  child_end : ∀ {p c stop : Nat} {m : Node}, d.get? p = some m → c ∈ m.children →
    m.endOffset = some stop → d.EndsBy stop c
  siblings : ∀ {p : Nat} {m : Node}, d.get? p = some m → m.children.Pairwise fun a b =>
    ∀ n, d.get? b = some n → d.EndsBy n.location.offset a

namespace NestsBefore

variable {d : Document} {k k' : Nat}

/-- At the start there is only the root. -/
private theorem ofLength (length : Nat) : (Document.ofLength length).NestsBefore 0 := by
  have hone : ∀ {i : Nat} {n : Node}, (Document.ofLength length).get? i = some n →
      i = rootId ∧ n.children = [] := by
    intro i n hn
    have hi : i < 1 := lt_size_of_get? hn
    obtain rfl : i = 0 := by omega
    cases hn
    exact ⟨rfl, rfl⟩
  refine ⟨?_, ?_, ?_, ?_⟩
  · intro i n hn hi
    exact absurd (hone hn).1 hi
  · intro p c m n hm hc
    simp [(hone hm).2] at hc
  · intro p c stop m hm hc
    simp [(hone hm).2] at hc
  · intro p m hm
    rw [(hone hm).2]
    exact .nil

/-- What lies before a byte lies before every later one. -/
private theorem mono (h : d.NestsBefore k) (hk : k ≤ k') : d.NestsBefore k' :=
  ⟨fun hn hi => (h.extends_to hn hi).mono hk, h.child_start, h.child_end, h.siblings⟩

/-- A change of one node that keeps where the node starts and its children.  What is new about the
node has to fit its children; that it fits its parent and its siblings is clear if its end stays the
one that was known. -/
private theorem modify (h : d.NestsBefore k) (hk : k ≤ k') {j : Nat} {x : Node}
    (hx : d.get? j = some x) (f : Node → Node) (hoffset : (f x).location.offset = x.location.offset)
    (hchildren : (f x).children = x.children)
    (hkeep : ∀ stop, x.endOffset = some stop → (f x).endOffset = some stop)
    (hextends : j ≠ rootId → (f x).ExtendsTo k')
    (hstart : ∀ c ∈ x.children, ∀ n, d.get? c = some n → j ≠ rootId →
      (f x).location.stop ≤ n.location.offset)
    (hend : ∀ c ∈ x.children, ∀ stop, (f x).endOffset = some stop → d.EndsBy stop c) :
    (d.modify j f).NestsBefore k' := by
  have hself : (d.modify j f).get? j = some (f x) := by
    rw [get?_modify_self, hx]
    rfl
  -- every node starts where it did, and its end stays the one that was known
  have hlike : ∀ {i : Nat} {n' : Node}, (d.modify j f).get? i = some n' → ∃ n, d.get? i = some n ∧
      n'.location.offset = n.location.offset ∧ n'.children = n.children ∧
      ∀ stop, n.endOffset = some stop → n'.endOffset = some stop := by
    intro i n' hn'
    by_cases hji : j = i
    · subst hji
      rw [hself] at hn'
      cases hn'
      exact ⟨x, hx, hoffset, hchildren, hkeep⟩
    · rw [get?_modify_of_ne hji] at hn'
      exact ⟨n', hn', rfl, rfl, fun _ hs => hs⟩
  have hends : ∀ {c stop : Nat}, d.EndsBy stop c → (d.modify j f).EndsBy stop c := by
    intro c stop hc n' hn'
    obtain ⟨n, hn, -, -, hsame⟩ := hlike hn'
    obtain ⟨e, he, hle⟩ := hc n hn
    exact ⟨e, hsame e he, hle⟩
  refine ⟨?_, ?_, ?_, ?_⟩
  · intro i n' hn' hi
    by_cases hji : j = i
    · subst hji
      rw [hself] at hn'
      cases hn'
      exact hextends hi
    · rw [get?_modify_of_ne hji] at hn'
      exact (h.extends_to hn' hi).mono hk
  · intro p c m' n' hm' hc hn' hp
    obtain ⟨n, hn, hn_offset, -⟩ := hlike hn'
    rw [hn_offset]
    by_cases hjp : j = p
    · subst hjp
      rw [hself] at hm'
      cases hm'
      exact hstart c (hchildren ▸ hc) n hn hp
    · rw [get?_modify_of_ne hjp] at hm'
      exact h.child_start hm' hc hn hp
  · intro p c stop m' hm' hc hstop
    apply hends
    by_cases hjp : j = p
    · subst hjp
      rw [hself] at hm'
      cases hm'
      exact hend c (hchildren ▸ hc) stop hstop
    · rw [get?_modify_of_ne hjp] at hm'
      exact h.child_end hm' hc hstop
  · intro p m' hm'
    obtain ⟨m, hm, -, hm_children, -⟩ := hlike hm'
    rw [hm_children]
    refine (h.siblings hm).imp fun {a b} hbefore n' hn' => ?_
    obtain ⟨n, hn, hn_offset, -⟩ := hlike hn'
    rw [hn_offset]
    exact hends (hbefore n hn)

/-- A new attribute changes no range. -/
private theorem setAttribute (h : d.NestsBefore k) (hk : k ≤ k') {id : Nat} {x : Node}
    (hx : d.get? id = some x) (a : Attribute) : (d.setAttribute id a).NestsBefore k' := by
  unfold Document.setAttribute
  refine h.modify hk hx _ rfl rfl (fun _ hs => hs) ?_ ?_ ?_
  · intro hi
    have hx_extends := (h.extends_to hx hi).mono hk
    exact ⟨hx_extends.nonempty, hx_extends.stop_le, hx_extends.ends⟩
  · intro c hc n hn hi
    show x.location.stop ≤ n.location.offset
    exact h.child_start hx hc hn hi
  · intro c hc stop hstop
    exact h.child_end hx hc hstop

/-- A start tag may become wider while the element has no children and no end. -/
private theorem widen (h : d.NestsBefore k) {id : Nat} {x : Node} (hx : d.get? id = some x)
    (hroot : id ≠ rootId) (hchildren : x.children = []) (hopen : x.endOffset = none) {l : Location}
    (hk : k ≤ l.stop) (selfClosed : Bool) : (d.widen id l selfClosed).NestsBefore l.stop := by
  have hx_extends := h.extends_to hx hroot
  have hstop : (x.location.extendTo l).stop = l.stop :=
    Location.stop_extendTo (Nat.le_trans hx_extends.stop_le hk)
  have hoffset : (x.location.extendTo l).offset = x.location.offset := x.location.offset_extendTo l
  unfold Document.widen
  -- only the end of the start tag moves, and there are no children that it could reach into
  refine h.modify hk hx _ hoffset rfl (fun _ hs => hs) ?_ ?_ ?_
  · intro _
    refine ⟨?_, Nat.le_of_eq hstop, ?_⟩
    · show (x.location.extendTo l).offset < (x.location.extendTo l).stop
      have hnonempty := hx_extends.nonempty
      have hle := hx_extends.stop_le
      omega
    · intro stop hs
      rw [hopen] at hs
      cases hs
  · intro c hc
    rw [hchildren] at hc
    cases hc
  · intro c hc
    rw [hchildren] at hc
    cases hc

/-- A node may end where the construction has reached, if all its children have ended. -/
private theorem close (h : d.NestsBefore k) {id : Nat} {x : Node} (hx : d.get? id = some x)
    (hroot : id ≠ rootId) (hopen : x.endOffset = none) (hdone : ∀ c ∈ x.children, d.EndsBy k c)
    (kind : CloseKind) {stop : Nat} (hk : k ≤ stop) : (d.close id kind stop).NestsBefore stop := by
  have hx_extends := h.extends_to hx hroot
  have hmax : max stop x.location.stop = stop :=
    Nat.max_eq_left (Nat.le_trans hx_extends.stop_le hk)
  unfold Document.close
  refine h.modify hk hx _ rfl rfl ?_ ?_ ?_ ?_
  · -- there was no end before
    intro e he
    rw [hopen] at he
    cases he
  · -- the new end is at or past the start tag
    intro _
    refine ⟨hx_extends.nonempty, Nat.le_trans hx_extends.stop_le hk, fun e he => ?_⟩
    cases he
    rw [hmax]
    exact ⟨Nat.le_trans hx_extends.stop_le hk, Nat.le_refl _⟩
  · intro c hc n hn hi
    show x.location.stop ≤ n.location.offset
    exact h.child_start hx hc hn hi
  · -- all children have ended by `k`
    intro c hc e he n hn
    cases he
    obtain ⟨e', he', hle⟩ := hdone c hc n hn
    exact ⟨e', he', by omega⟩

/-- A new node may start where the construction has reached, if all its siblings have ended and its
parent has not. -/
private theorem adopt (h : d.NestsBefore k) (ht : d.IsTree) {p : Nat} {m : Node}
    (hm : d.get? p = some m) (hopen : m.endOffset = none) (hdone : ∀ c ∈ m.children, d.EndsBy k c)
    {n : Node} (hn : n.children = []) (hk : k ≤ n.location.offset)
    (hextends : n.ExtendsTo n.location.stop) :
    (d.adopt p n).NestsBefore n.location.stop := by
  have hp : p < d.size := lt_size_of_get? hm
  have hnew : (d.adopt p n).get? d.size = some { n with parent := some p } := get?_adopt_new hp n
  have hstop : k ≤ n.location.stop := Nat.le_trans hk (Nat.le_of_lt hextends.nonempty)
  refine ⟨?_, ?_, ?_, ?_⟩
  · -- every node but the root has a start tag that is not empty and ends in time
    intro i y' hy' hi
    by_cases hsize : i = d.size
    · subst hsize
      rw [hnew] at hy'
      cases hy'
      exact ⟨hextends.nonempty, hextends.stop_le, hextends.ends⟩
    · obtain ⟨y, hy, rfl⟩ := exists_of_get?_adopt hy' hsize
      have hy_extends := (h.extends_to hy hi).mono hstop
      exact ⟨hy_extends.nonempty, hy_extends.stop_le, hy_extends.ends⟩
  · -- a child begins after the start tag of its parent
    intro q c y' z' hy' hc hz' hq
    obtain ⟨y, hy, hlocation, -, ⟨hc, hsize⟩ | ⟨rfl, -⟩⟩ := ht.exists_of_child_adopt hp hn hy' hc
    · obtain ⟨z, hz, rfl⟩ := exists_of_get?_adopt hz' hsize
      rw [hlocation]
      have hstart := h.child_start hy hc hz hq
      exact hstart
    · rw [hnew] at hz'
      cases hz'
      rw [hlocation]
      exact Nat.le_trans (h.extends_to hy hq).stop_le hk
  · -- a child of a node with an end has ended before it: the new node's parent has none
    intro q c stop y' hy' hc hs
    obtain ⟨y, hy, -, hend, ⟨hc, hsize⟩ | ⟨rfl, rfl⟩⟩ := ht.exists_of_child_adopt hp hn hy' hc
    · rw [hend] at hs
      exact (h.child_end hy hc hs).adopt hsize
    · rw [hm] at hy
      cases hy
      rw [hend, hopen] at hs
      cases hs
  · -- siblings follow one another: the new one comes after all that have ended
    intro q y' hy'
    by_cases hsize : q = d.size
    · subst hsize
      rw [hnew] at hy'
      cases hy'
      rw [hn]
      exact .nil
    · obtain ⟨y, hy, rfl⟩ := exists_of_get?_adopt hy' hsize
      apply List.pairwise_append.mpr
      refine ⟨?_, ?_, ?_⟩
      · refine (h.siblings hy).imp_of_mem fun {a b} ha hb hab z' hz' => ?_
        obtain ⟨z, hz, rfl⟩ := exists_of_get?_adopt hz' (Nat.ne_of_lt (ht.child_lt hy hb))
        exact (hab z hz).adopt (Nat.ne_of_lt (ht.child_lt hy ha))
      · split
        · exact List.pairwise_singleton ..
        · exact .nil
      · intro a ha b hb z hz
        split at hb
        · rename_i hqp
          subst hqp
          rw [hm] at hy
          cases hy
          rw [List.mem_singleton.mp hb, hnew] at hz
          cases hz
          exact ((hdone a ha).mono hk).adopt (Nat.ne_of_lt (ht.child_lt hm ha))
        · cases hb

end NestsBefore

end Document

/-! ## Advances -/

/-- What is known of the nodes nests, the root and the open elements have not ended, the element
whose start tag is being read has no children, and the root is where it was at the start. -/
structure Progress.Nests (x : Progress) : Prop where
  nests : x.stage.document.NestsBefore x.reached
  unended : ∀ i : Nat, i ∈ rootId :: x.stage.openElements → ∀ n, x.stage.document.get? i = some n →
    n.endOffset = none
  childless : ∀ id n, x.tag = some id → x.stage.document.get? id = some n → n.children = []
  root_location : ∀ n, x.stage.document.get? rootId = some n →
    n.location = { toPosition := .start, size := x.stage.document.sourceLength }

/-- The children of the node that new nodes go into have all ended: they are younger than the
innermost open element. -/
private theorem Stage.endsBy_of_mem_children {d : Document} {ids : List NodeId} {new : Option Node}
    {k : Nat} (hs : (Stage.mk d ids new).Sound) (ht : d.IsTree)
    (he : (Stage.mk d ids new).EndsKnown) (h : d.NestsBefore k) {m : Node}
    (hm : d.get? (ids.headD rootId) = some m) :
    ∀ c ∈ m.children, d.EndsBy k c := by
  intro c hc n hn
  have hlt : ids.headD rootId < c := ht.lt_of_mem_children hm hc
  have hroot : c ≠ rootId := Nat.ne_of_gt (Nat.zero_lt_of_lt hlt)
  have hclosed : c ∉ ids := by
    intro hmem
    cases ids with
    | nil => cases hmem
    | cons id ids =>
      obtain rfl | hmem := List.mem_cons.mp hmem
      · exact Nat.lt_irrefl _ hlt
      · have := (List.pairwise_cons.mp hs.decreasing).1 c hmem
        exact Nat.lt_asymm this hlt
  obtain ⟨stop, hstop⟩ := Option.isSome_iff_exists.mp (he c n hn hroot hclosed)
  exact ⟨stop, hstop, ((h.extends_to hn hroot).ends stop hstop).2⟩

namespace Progress.Nests

variable {source : List Char} {x y : Progress} {ms : List Moment}

/-- At the start nothing is known but the root. -/
theorem ofLength (length : Nat) : (Progress.ofLength length).Nests where
  nests := .ofLength length
  unended i hi n hn := by
    obtain rfl : i = rootId := by simpa [Progress.ofLength, Stage.ofLength] using hi
    cases hn
    rfl
  childless id n h := nomatch h
  root_location n hn := by
    cases hn
    rfl

/-- A change of one node that keeps its place among the nodes and, if it stays open, that it has not
ended. -/
private theorem modify {d : Document} {ids ids' : List NodeId} {new : Option Node}
    {tag tag' : Option NodeId} {k k' : Nat} (h : (Progress.mk ⟨d, ids, new⟩ tag k).Nests) {j : Nat}
    {f : Node → Node} (hroot : j ≠ rootId) (hnests : (d.modify j f).NestsBefore k')
    (hids : ∀ i ∈ ids', i ∈ ids) (hend : j ∈ ids' → ∀ n, (f n).endOffset = n.endOffset)
    (htag : ∀ id, tag' = some id → tag = some id) (hchildren : ∀ n, (f n).children = n.children) :
    (Progress.mk ⟨d.modify j f, ids', new⟩ tag' k').Nests where
  nests := hnests
  unended i hi n' hn' := by
    -- what is open after was open before
    have hmem : i ∈ rootId :: ids := by
      cases List.mem_cons.mp hi with
      | inl hi => exact hi ▸ List.mem_cons_self ..
      | inr hi => exact List.mem_cons_of_mem _ (hids i hi)
    simp only [Document.get?_modify] at hn'
    split at hn'
    · rename_i hji
      subst hji
      obtain ⟨n, hn, rfl⟩ := Option.map_eq_some_iff.mp hn'
      rw [hend ((List.mem_cons.mp hi).resolve_left hroot)]
      exact h.unended j hmem n hn
    · exact h.unended i hmem n' hn'
  childless id n' hid hn' := by
    simp only [Document.get?_modify] at hn'
    split at hn'
    · obtain ⟨n, hn, rfl⟩ := Option.map_eq_some_iff.mp hn'
      rw [hchildren]
      exact h.childless id n (htag id hid) hn
    · exact h.childless id n' (htag id hid) hn'
  root_location n hn := by
    simp only [Document.get?_modify_of_ne hroot] at hn
    exact h.root_location n hn

/-- A new node goes under the root or an open element. -/
private theorem adopt {d : Document} {ids ids' : List NodeId} {new : Option Node}
    {tag' : Option NodeId} {k : Nat} (h : (Progress.mk ⟨d, ids, new⟩ none k).Nests)
    (hs : (Stage.mk d ids new).Sound) (hg : (Stage.mk d ids new).Grown)
    (he : (Stage.mk d ids new).EndsKnown) {n : Node} (hchildren : n.children = [])
    (hk : k ≤ n.location.offset) (hextends : n.ExtendsTo n.location.stop)
    (hids : ∀ i ∈ ids', i ∈ ids ∨ i = d.size ∧ n.endOffset = none)
    (htag : ∀ id, tag' = some id → id = d.size) :
    (Progress.mk ⟨d.adopt (ids.headD rootId) n, ids', none⟩ tag' n.location.stop).Nests := by
  obtain ⟨m, hm⟩ := Document.exists_get?_of_lt hs.head_lt_size
  -- the parent is the innermost open node, and all its children have ended
  have hopen : m.endOffset = none := by
    refine h.unended _ ?_ m hm
    cases ids with
    | nil => exact List.mem_cons_self ..
    | cons id ids => exact List.mem_cons_of_mem _ (List.mem_cons_self ..)
  have hdone := Stage.endsBy_of_mem_children hs hg.tree he h.nests hm
  have hroot : d.size ≠ rootId := Nat.ne_of_gt d.size_pos
  have hnew := Document.get?_adopt_new hs.head_lt_size n
  refine ⟨h.nests.adopt hg.tree hm hopen hdone hchildren hk hextends, ?_, ?_, ?_⟩
  · intro i hi z' hz'
    have hcases : i ∈ rootId :: ids ∨ i = d.size ∧ n.endOffset = none := by
      cases List.mem_cons.mp hi with
      | inl hi => exact .inl (hi ▸ List.mem_cons_self ..)
      | inr hi => exact (hids i hi).imp_left (List.mem_cons_of_mem _)
    obtain hmem | ⟨rfl, hnone⟩ := hcases
    · have hlt : i < d.size := by
        cases List.mem_cons.mp hmem with
        | inl hi => exact hi ▸ d.size_pos
        | inr hi => exact hs.lt_size hi
      obtain ⟨z, hz, rfl⟩ := Document.exists_of_get?_adopt hz' (Nat.ne_of_lt hlt)
      exact h.unended i hmem z hz
    · rw [hnew] at hz'
      cases hz'
      exact hnone
  · intro id z' hid hz'
    obtain rfl := htag id hid
    rw [hnew] at hz'
    cases hz'
    exact hchildren
  · intro z' hz'
    obtain ⟨z, hz, rfl⟩ := Document.exists_of_get?_adopt hz' (Ne.symm hroot)
    exact h.root_location z hz

/-- Every advance keeps the ranges nested. -/
theorem advance (ha : Advance source x ms y) (hs : x.stage.Sound) (hg : x.stage.Grown)
    (he : x.stage.EndsKnown) (h : x.Nests) : y.Nests := by
  cases ha with
  | remark he hp hk hb => exact ⟨h.nests.mono hk, h.unended, h.childless, h.root_location⟩
  | announce => exact ⟨h.nests, h.unended, h.childless, h.root_location⟩
  | @store d id ids k k' a hp hk =>
    obtain ⟨n, hn⟩ := Document.exists_get?_of_lt (hs.lt_size (List.mem_cons_self ..))
    have hle : k ≤ k' := Nat.le_trans hk.1.1 (Nat.le_of_lt hk.1.2)
    exact h.modify (hs.ne_root (List.mem_cons_self ..)) (h.nests.setAttribute hle hn a)
      (fun _ hi => hi) (fun _ _ => rfl) (fun _ hid => hid) (fun _ => rfl)
  | @widen d id ids k l selfClosed hp hk =>
    have hroot : id ≠ rootId := hs.ne_root (List.mem_cons_self ..)
    obtain ⟨n, hn⟩ := Document.exists_get?_of_lt (hs.lt_size (List.mem_cons_self ..))
    have hchildren := h.childless id n rfl hn
    have hopen := h.unended id (List.mem_cons_of_mem _ (List.mem_cons_self ..)) n hn
    exact h.modify hroot (h.nests.widen hn hroot hchildren hopen hk selfClosed) (fun _ hi => hi)
      (fun _ _ => rfl) (fun _ hid => nomatch hid) (fun _ => rfl)
  | @text d ids k content location foreign hp hk hsize =>
    refine h.adopt hs hg he rfl hk ⟨?_, Nat.le_refl _, ?_⟩ (fun _ hi => .inl hi)
      (fun _ hid => nomatch hid)
    · exact Nat.lt_add_of_pos_right hsize
    · intro stop hstop
      cases hstop
      exact ⟨Nat.le_refl _, Nat.le_refl _⟩
  | @close d id ids new kind k location stop hn hp hk =>
    have hroot : id ≠ rootId := hs.ne_root (List.mem_cons_self ..)
    obtain ⟨n, hn⟩ := Document.exists_get?_of_lt (hs.lt_size (List.mem_cons_self ..))
    have hopen := h.unended id (List.mem_cons_of_mem _ (List.mem_cons_self ..)) n hn
    have hdone := Stage.endsBy_of_mem_children hs hg.tree he h.nests hn
    refine h.modify hroot (h.nests.close hn hroot hopen hdone kind hk)
      (fun _ hi => List.mem_cons_of_mem _ hi) ?_ (fun _ hid => nomatch hid) (fun _ => rfl)
    -- the element that is closed is no longer among the open ones
    intro hmem
    exact absurd ((List.pairwise_cons.mp hs.decreasing).1 id hmem) (Nat.lt_irrefl _)
  | @place d ids n k hk hsize =>
    obtain ⟨tag, location, foreign, void, hnew⟩ := hs.upcoming_eq n rfl
    have hid : n.id = d.size := hs.upcoming_id
    have hend : n.endOffset = none := by rw [hnew]; rfl
    refine h.adopt hs hg he (by rw [hnew]; rfl) hk ⟨?_, Nat.le_refl _, ?_⟩ ?_ ?_
    · exact Nat.lt_add_of_pos_right hsize
    · intro stop hstop
      rw [hend] at hstop
      cases hstop
    · intro i hi
      cases List.mem_cons.mp hi with
      | inl hi => exact .inr ⟨hi.trans hid, hend⟩
      | inr hi => exact .inl hi
    · rintro _ ⟨⟩
      exact hid

/-- Every course keeps the ranges nested, advance by advance. -/
private theorem course (hc : Course source x ms y) (hs : x.stage.Sound) (hg : x.stage.Grown)
    (he : x.stage.EndsKnown) (h : x.Nests) : y.Nests := by
  induction hc with
  | done x => exact h
  | move first _ ih =>
    exact ih (hs.move first.move) (hg.move first.move hs) (he.move first.move hs)
      (h.advance first hs hg he)

/-- When all elements are closed, the end of the source makes the ranges complete. -/
private theorem isLaminar {d : Document} {k : Nat} (h : (Progress.mk ⟨d, [], none⟩ none k).Nests)
    (ht : d.IsTree) (he : (Stage.mk d [] none).EndsKnown) (hk : k ≤ d.sourceLength) :
    d.ended.IsLaminar d.sourceLength := by
  -- children are never the root, so their ends stay what they were
  have hchild : ∀ {p c : Nat} {y z' : Node}, d.get? p = some y → c ∈ y.children →
      d.ended.get? c = some z' → d.get? c = some z' ∧ c ≠ rootId := by
    intro p c y z' hy hc hz'
    have hlt := ht.lt_of_mem_children hy hc
    have hne : c ≠ rootId := Nat.ne_of_gt (Nat.zero_lt_of_lt hlt)
    exact ⟨(Document.get?_modify_of_ne (Ne.symm hne) _).symm.trans hz', hne⟩
  refine ⟨?_, ?_, ?_, ?_, ?_, ?_⟩
  · intro i x hx
    obtain ⟨y, hy, rfl⟩ := Document.exists_of_get?_ended hx
    by_cases hi : i = rootId
    · subst hi
      refine ⟨d.sourceLength, rfl, ?_, Nat.le_refl _⟩
      show y.location.stop ≤ _
      rw [h.root_location y hy]
      exact Nat.le_of_eq (Nat.zero_add _)
    · obtain ⟨stop, hs⟩ := Option.isSome_iff_exists.mp (he i y hy hi List.not_mem_nil)
      obtain ⟨hle, hend⟩ := (h.nests.extends_to hy hi).ends stop hs
      exact ⟨stop, (if_neg hi).trans hs, hle, Nat.le_trans hend hk⟩
  · intro i x hx hlength
    obtain ⟨y, hy, rfl⟩ := Document.exists_of_get?_ended hx
    show y.location.offset < y.location.stop
    by_cases hi : i = rootId
    · have hpos := hlength hi
      subst hi
      rw [h.root_location y hy]
      exact Nat.lt_add_of_pos_right hpos
    · exact (h.nests.extends_to hy hi).nonempty
  · intro x hx
    obtain ⟨y, hy, rfl⟩ := Document.exists_of_get?_ended hx
    show y.location.offset = 0
    rw [h.root_location y hy]
    rfl
  · intro p c x z hx hc hz hp
    obtain ⟨y, hy, rfl⟩ := Document.exists_of_get?_ended hx
    have hstart := h.nests.child_start hy hc (hchild hy hc hz).1 hp
    exact hstart
  · intro p c x z stop stop' hx hc hz hs hs'
    obtain ⟨y, hy, rfl⟩ := Document.exists_of_get?_ended hx
    obtain ⟨hz, hne⟩ := hchild hy hc hz
    by_cases hp : p = rootId
    · obtain rfl : d.sourceLength = stop := Option.some.inj ((if_pos hp).symm.trans hs)
      exact Nat.le_trans ((h.nests.extends_to hz hne).ends stop' hs').2 hk
    · obtain ⟨e, hend, hle⟩ := h.nests.child_end hy hc ((if_neg hp).symm.trans hs) z hz
      rw [hs'] at hend
      cases hend
      exact hle
  · intro p x hx
    obtain ⟨y, hy, rfl⟩ := Document.exists_of_get?_ended hx
    refine (h.nests.siblings hy).imp_of_mem fun {a b} ha hb hab n n' stop hn hn' hs => ?_
    obtain ⟨e, hend, hle⟩ := hab n' (hchild hy hb hn').1 n (hchild hy ha hn).1
    rw [hs] at hend
    cases hend
    exact hle

end Progress.Nests

/-- Every course from the start on keeps the ranges nested. -/
theorem Course.nests {source : List Char} {length : Nat} {ms : List Moment} {y : Progress}
    (h : Course source (.ofLength length) ms y) : y.Nests :=
  .course h (.ofLength length) (.ofLength length) (.ofLength length) (.ofLength length)

/-- The document that a course makes is a tree whose ranges are laminar. -/
theorem Course.isLaminar {source : List Char} {length k : Nat} {ms : List Moment} {d : Document}
    (h : Course source (.ofLength length) ms ⟨⟨d, [], none⟩, none, k⟩) (hk : k ≤ length) :
    d.ended.IsTree ∧ d.ended.IsLaminar length := by
  have hsound := Stage.Sound.ofLength length
  have hgrown := Stage.Grown.ofLength length
  have hends := Stage.EndsKnown.ofLength length
  have hlength : d.sourceLength = length := h.run.sourceLength_eq
  have htree : d.IsTree := (hgrown.run h.run hsound).1.tree
  have hlaminar := h.nests.isLaminar htree (h.run.endsKnown hsound hends) (hlength ▸ hk)
  rw [hlength] at hlaminar
  exact ⟨htree.modify (fun _ => rfl) (fun _ => rfl) (fun _ => rfl), hlaminar⟩

/-- A source that can be cut into tokens is parsed into a tree whose ranges of bytes are laminar,
whatever is known about its elements. -/
theorem parse_isLaminar (v : Vocabulary) {source : String} (h : (tokenize source).failure = none) :
    ∃ d es, parse v source = .ok (d, es) ∧ d.IsTree ∧ d.IsLaminar (byteLength source.toList) := by
  obtain ⟨ms, d, k, hk, hcourse, hrecord⟩ := record_course h v
  rw [parse_eq h, hrecord]
  exact ⟨_, _, rfl, hcourse.isLaminar hk⟩

/-- A list whose first item is ended by the second, which is ended by the end tag of the list. -/
theorem parse_isLaminar_list :
    let source := "<ul><li>ä<li class=a>b</ul>c"
    let v : Vocabulary :=
      ⟨.ofList [("li", { (default : ElementModel) with tag := "li", implicitClosed := ["li"] })]⟩
    (tokenize source).failure = none ∧
    (parse v source).toOption.map (fun made => (List.range made.1.size).map made.1.range?) =
      some [some ⟨0, 29⟩, some ⟨0, 28⟩, some ⟨4, 10⟩, some ⟨8, 10⟩, some ⟨10, 23⟩, some ⟨22, 23⟩,
        some ⟨28, 29⟩] ∧
    ∃ d es, parse v source = .ok (d, es) ∧ d.IsTree ∧ d.IsLaminar (byteLength source.toList) := by
  intro source v
  have hscan : (tokenize source).failure = none := by decide +kernel
  exact ⟨hscan, by decide +kernel, parse_isLaminar v hscan⟩

end HtmlLint
