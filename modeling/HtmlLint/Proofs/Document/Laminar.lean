import HtmlLint.Proofs.Document.Tree
import Mathlib.Data.List.Pairwise

/-!
# Ranges of bytes that nest like the nodes

Each node of a finished document has a range of bytes.  `Document.IsLaminar` says that these ranges
fit the tree: a child lies in its parent, after the parent's start tag, and the children of a node
lie one after the other.  Two ranges then either lie apart or belong to nodes of which one encloses
the other (`IsLaminar.encloses_or_apart`), so that a byte in the start tag of a node tells exactly
which nodes enclose that node: those whose range it lies in (`IsLaminar.contains_iff`).
-/

namespace HtmlLint

namespace Document

/-- The second node is the first one or lies below it in the tree. -/
inductive Encloses (d : Document) (n : NodeId) : NodeId → Prop where
  | self : Encloses d n n
  | child {p c : NodeId} {m : Node} (hm : d.get? p = some m) (hc : c ∈ m.children)
      (h : Encloses d n p) : Encloses d n c

/-- The ranges of the nodes of a source of `length` bytes nest like the nodes. -/
structure IsLaminar (length : Nat) (d : Document) : Prop where
  /-- a node ends within the source, and not before its start tag does -/
  ends : ∀ {i : Nat} {n : Node}, d.get? i = some n →
    ∃ stop, n.endOffset = some stop ∧ n.location.stop ≤ stop ∧ stop ≤ length
  /-- no node is empty, except for the root of an empty source -/
  nonempty : ∀ {i : Nat} {n : Node}, d.get? i = some n → (i = rootId → 0 < length) →
    n.location.offset < n.location.stop
  /-- the root starts with the source -/
  root_start : ∀ {n : Node}, d.get? rootId = some n → n.location.offset = 0
  /-- a child starts after the start tag of its parent -/
  child_start : ∀ {p c : Nat} {m n : Node}, d.get? p = some m → c ∈ m.children → d.get? c = some n →
    p ≠ rootId → m.location.stop ≤ n.location.offset
  /-- a child ends before its parent does -/
  child_end : ∀ {p c : Nat} {m n : Node} {stop stop' : Nat}, d.get? p = some m → c ∈ m.children →
    d.get? c = some n → m.endOffset = some stop → n.endOffset = some stop' → stop' ≤ stop
  /-- a node ends before the next one with the same parent starts -/
  siblings : ∀ {p : Nat} {m : Node}, d.get? p = some m → m.children.Pairwise fun a b =>
    ∀ {n n' : Node} {stop : Nat}, d.get? a = some n → d.get? b = some n' → n.endOffset = some stop →
      stop ≤ n'.location.offset

/-- The ranges of two nodes have no byte in common. -/
def Apart (d : Document) (i j : NodeId) : Prop :=
  ∀ r r', d.range? i = some r → d.range? j = some r' → r.stop ≤ r'.start ∨ r'.stop ≤ r.start

/-- Being apart does not depend on the order. -/
private theorem Apart.symm {d : Document} {i j : NodeId} (h : d.Apart i j) :
    d.Apart j i := fun r r' hr hr' =>
  (h r' r hr' hr).symm

instance (d : Document) : Std.Symm d.Apart :=
  ⟨fun _ _ => Apart.symm⟩

/-! ## Enclosing nodes -/

section Encloses

variable {d : Document} {n i : Nat}

/-- A node is not younger than what it encloses. -/
theorem Encloses.le (h : d.Encloses n i) (ht : d.IsTree) : n ≤ i := by
  induction h with
  | self => exact Nat.le_refl n
  | child hm hc _ ih =>
    have := ht.lt_of_mem_children hm hc
    exact Nat.le_trans ih (Nat.le_of_lt this)

/-- A node that lies strictly below another one lies below one of its children. -/
private theorem Encloses.exists_child (h : d.Encloses n i) (hne : n ≠ i) :
    ∃ m c, d.get? n = some m ∧ c ∈ m.children ∧ d.Encloses c i := by
  induction h with
  | self => exact absurd rfl hne
  | @child p c m hm hc h ih =>
    by_cases hp : n = p
    · subst hp
      exact ⟨m, c, hm, hc, .self⟩
    · obtain ⟨m', c', hm', hc', hinner⟩ := ih hp
      exact ⟨m', c', hm', hc', .child hm hc hinner⟩

/-- Every node but the root is a child. -/
private theorem IsTree.exists_parent (ht : d.IsTree) (hi : i < d.size) (hroot : i ≠ rootId) :
    ∃ p m, p < i ∧ d.get? p = some m ∧ i ∈ m.children := by
  obtain ⟨x, hx⟩ := exists_get?_of_lt hi
  cases hp : x.parent with
  | none => exact absurd ((ht.parent_eq_none_iff hx).mp hp) hroot
  | some p =>
    have hlt : p < i := ht.parent_lt hx hp
    obtain ⟨m, hm⟩ := exists_get?_of_lt (Nat.lt_trans hlt hi)
    exact ⟨p, m, hlt, hm, (ht.mem_children_iff hx hm).mpr hp⟩

end Encloses

/-! ## Ranges -/

namespace IsLaminar

variable {d : Document} {length n i : Nat}

/-- The range of a node goes from its start to its end. -/
private theorem range?_eq (h : d.IsLaminar length) {x : Node} (hx : d.get? i = some x) :
    ∃ stop, d.range? i = some ⟨x.location.offset, stop⟩ ∧ x.endOffset = some stop ∧
      x.location.stop ≤ stop := by
  obtain ⟨stop, hstop, hle, -⟩ := h.ends hx
  refine ⟨stop, ?_, hstop, hle⟩
  unfold range?
  rw [hx, Option.bind_some, hstop, Option.map_some, Nat.max_eq_left hle]

/-- Every node has a range. -/
theorem exists_range? (h : d.IsLaminar length) (hi : i < d.size) : ∃ r, d.range? i = some r := by
  obtain ⟨x, hx⟩ := exists_get?_of_lt hi
  obtain ⟨stop, hr, -⟩ := h.range?_eq hx
  exact ⟨_, hr⟩

/-- Only nodes have ranges. -/
private theorem exists_get?_of_range? {r : ByteRange} (hr : d.range? i = some r) :
    ∃ x, d.get? i = some x := by
  obtain ⟨x, hx, -⟩ := Option.bind_eq_some_iff.mp hr
  exact ⟨x, hx⟩

/-- A child lies in its parent. -/
private theorem child_inside (h : d.IsLaminar length) {p c : Nat} {m : Node}
    (hm : d.get? p = some m) (hc : c ∈ m.children) {r r' : ByteRange} (hr : d.range? p = some r)
    (hr' : d.range? c = some r') :
    r.start ≤ r'.start ∧ r'.stop ≤ r.stop := by
  obtain ⟨x, hx⟩ := exists_get?_of_range? hr'
  obtain ⟨stop, hrange, hstop, -⟩ := h.range?_eq hm
  obtain ⟨stop', hrange', hstop', -⟩ := h.range?_eq hx
  rw [hr] at hrange
  rw [hr'] at hrange'
  cases hrange
  cases hrange'
  refine ⟨?_, h.child_end hm hc hx hstop hstop'⟩
  by_cases hp : p = rootId
  · subst hp
    rw [h.root_start hm]
    exact Nat.zero_le _
  · exact Nat.le_trans (Nat.le_add_right _ _) (h.child_start hm hc hx hp)

/-- So does everything below it. -/
private theorem inside (h : d.IsLaminar length) (he : d.Encloses n i) {r r' : ByteRange}
    (hr : d.range? n = some r) (hr' : d.range? i = some r') :
    r.start ≤ r'.start ∧ r'.stop ≤ r.stop := by
  induction he generalizing r' with
  | self =>
    rw [hr] at hr'
    cases hr'
    exact ⟨Nat.le_refl _, Nat.le_refl _⟩
  | child hm hc _ ih =>
    obtain ⟨middle, hmiddle⟩ := h.exists_range? (lt_size_of_get? hm)
    have houter := ih hmiddle
    have hinner := h.child_inside hm hc hmiddle hr'
    omega

/-- What lies apart from a node lies apart from everything below that node. -/
private theorem apart_below (h : d.IsLaminar length) {p : Nat} (hp : p < d.size)
    (hapart : d.Apart n p) (he : d.Encloses p i) : d.Apart n i := by
  intro r r' hr hr'
  obtain ⟨outer, houter⟩ := h.exists_range? hp
  have hinside := h.inside he houter hr'
  have := hapart r outer hr houter
  omega

/-- Two children of a node have no byte in common. -/
private theorem siblings_apart (h : d.IsLaminar length) {p a b : Nat} {m : Node}
    (hm : d.get? p = some m) (ha : a ∈ m.children) (hb : b ∈ m.children) (hne : a ≠ b) :
    d.Apart a b := by
  have hpairwise : m.children.Pairwise d.Apart := by
    refine (h.siblings hm).imp fun {a b} hbefore r r' hr hr' => ?_
    obtain ⟨x, hx⟩ := exists_get?_of_range? hr
    obtain ⟨x', hx'⟩ := exists_get?_of_range? hr'
    obtain ⟨stop, hrange, hstop, -⟩ := h.range?_eq hx
    obtain ⟨stop', hrange', -⟩ := h.range?_eq hx'
    rw [hr] at hrange
    rw [hr'] at hrange'
    cases hrange
    cases hrange'
    exact .inl (hbefore hx hx' hstop)
  exact hpairwise.forall ha hb hne

/-- Of two nodes the older one encloses the other, or they lie apart. -/
theorem encloses_or_apart (h : d.IsLaminar length) (ht : d.IsTree) (hi : i < d.size) (hn : n < i) :
    d.Encloses n i ∨ d.Apart n i := by
  -- the induction is on the younger node: its parent is older than it
  induction i using Nat.strongRecOn generalizing n with
  | ind i ih =>
    obtain ⟨p, m, hp, hm, hchild⟩ := ht.exists_parent hi (Nat.ne_of_gt (Nat.zero_lt_of_lt hn))
    have hps : p < d.size := Nat.lt_trans hp hi
    have hbelow : d.Encloses p i := .child hm hchild .self
    obtain hlt | heq | hgt := Nat.lt_trichotomy n p
    · obtain hencloses | hapart := ih p hp hps hlt
      · exact .inl (.child hm hchild hencloses)
      · exact .inr (h.apart_below hps hapart hbelow)
    · subst heq
      exact .inl hbelow
    · obtain hencloses | hapart := ih n hn (Nat.lt_trans hn hi) hgt
      · -- both lie below the parent, but below different children of it
        right
        obtain ⟨m', c, hm', hc, hinner⟩ := hencloses.exists_child (Nat.ne_of_lt hgt)
        rw [hm] at hm'
        cases hm'
        have hci : c ≠ i := Nat.ne_of_lt (Nat.lt_of_le_of_lt (hinner.le ht) hn)
        have hapart := h.siblings_apart hm hchild hc (Ne.symm hci)
        exact (h.apart_below (ht.child_lt hm hc) hapart hinner).symm
      · exact .inr (h.apart_below hps hapart.symm hbelow)

/-- A byte in the start tag of a node lies in the ranges of the nodes that enclose that node, and in
no others. -/
theorem contains_iff (h : d.IsLaminar length) (ht : d.IsTree) {x : Node} (hx : d.get? i = some x)
    (hroot : i ≠ rootId) {r : ByteRange} (hr : d.range? n = some r) {offset : Nat}
    (hstart : x.location.offset ≤ offset) (hstop : offset < x.location.stop) :
    r.contains offset = true ↔ d.Encloses n i := by
  obtain ⟨y, hy⟩ := exists_get?_of_range? hr
  obtain ⟨stop, hrange, -, hle⟩ := h.range?_eq hx
  have hi : i < d.size := lt_size_of_get? hx
  have hn : n < d.size := lt_size_of_get? hy
  simp only [ByteRange.contains, Bool.and_eq_true, decide_eq_true_eq]
  constructor
  · rintro ⟨hfrom, hto⟩
    -- the byte lies in both ranges
    have hcommon : ¬ d.Apart n i := by
      intro hapart
      have := hapart _ _ hr hrange
      simp only at this
      omega
    obtain hlt | heq | hgt := Nat.lt_trichotomy n i
    · exact (h.encloses_or_apart ht hi hlt).resolve_right hcommon
    · subst heq
      exact .self
    · obtain hencloses | hapart := h.encloses_or_apart ht hn hgt
      · -- what lies below the node starts after its start tag
        obtain ⟨m, c, hm, hc, hinner⟩ := hencloses.exists_child (Nat.ne_of_lt hgt)
        rw [hx] at hm
        cases hm
        obtain ⟨z, hz⟩ := exists_get?_of_lt (ht.child_lt hx hc)
        obtain ⟨stop', hrange', -⟩ := h.range?_eq hz
        have hafter := h.child_start hx hc hz hroot
        have hinside := h.inside hinner hrange' hr
        simp only at hinside
        omega
      · exact absurd hapart.symm hcommon
  · intro hencloses
    have hinside := h.inside hencloses hr hrange
    simp only at hinside
    omega

end IsLaminar

end Document

end HtmlLint
