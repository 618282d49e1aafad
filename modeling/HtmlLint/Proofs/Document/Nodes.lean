import HtmlLint.Document

/-!
# Reading nodes back

What `Document.get?` gives after each change of a document.  Every later statement about documents
goes through these equations, so that the array behind a document is opened here and nowhere else.

`Document.adopt` is the one way in which a document grows: a new node becomes the last child of a
node that is there already.
-/

namespace HtmlLint

namespace Document

/-! ## Which numbers have a node -/

/-- Numbers beyond the last one belong to no node. -/
theorem get?_eq_none_iff {d : Document} {i : Nat} : d.get? i = none ↔ d.size ≤ i := by
  simp [get?, size]

/-- The number of a node is below the number of nodes. -/
theorem lt_size_of_get? {d : Document} {i : Nat} {n : Node} (h : d.get? i = some n) :
    i < d.size := by
  have := mt (get?_eq_none_iff (d := d) (i := i)).mpr (by simp [h])
  omega

/-- Every such number belongs to a node. -/
theorem exists_get?_of_lt {d : Document} {i : Nat} (h : i < d.size) : ∃ n, d.get? i = some n := by
  cases hn : d.get? i with
  | none => have := get?_eq_none_iff.mp hn; omega
  | some n => exact ⟨n, rfl⟩

/-- There is always the root. -/
theorem size_pos (d : Document) : 0 < d.size := d.rooted

/-- The root is found under its number. -/
theorem get?_rootId (d : Document) : d.get? rootId = some d.root := by
  simp [get?, rootId, root, d.rooted]

/-- A node that is there is found without a default. -/
theorem node_of_get? {d : Document} {i : Nat} {n : Node} (h : d.get? i = some n) :
    d.node i = n := by
  simp [node, h]

/-- The elements of a document are those of its nodes that are elements. -/
theorem mem_elements {d : Document} {n : Node} :
    n ∈ d.elements ↔ (∃ i : Nat, d.get? i = some n) ∧ n.isElement = true := by
  rw [elements, List.mem_filter, List.mem_iff_getElem?]
  simp only [Array.getElem?_toList]
  rfl

/-- Two documents of the same length with the same nodes are the same. -/
theorem eq_of_get?_eq {d d' : Document} (hl : d.sourceLength = d'.sourceLength)
    (h : ∀ i : Nat, d.get? i = d'.get? i) : d = d' := by
  obtain ⟨nodes, len, hr⟩ := d
  obtain ⟨nodes', len', hr'⟩ := d'
  have hn : nodes = nodes' := Array.ext_getElem? h
  subst hn
  subst hl
  rfl

/-! ## After a change -/

@[simp] theorem size_push (d : Document) (n : Node) : (d.push n).size = d.size + 1 := by
  simp [push, size]

@[simp] theorem size_modify (d : Document) (i : Nat) (f : Node → Node) :
    (d.modify i f).size = d.size := by
  simp [modify, size]

@[simp] theorem size_close (d : Document) (i : Nat) (k : CloseKind) (stop : Nat) :
    (d.close i k stop).size = d.size := by
  simp [close]

/-- A new node gets the next number. -/
theorem get?_push (d : Document) (n : Node) (i : Nat) :
    (d.push n).get? i = if i = d.size then some n else d.get? i := by
  show (d.nodes.push n)[i]? = _
  rw [Array.getElem?_push]
  rfl

/-- The others keep theirs. -/
theorem get?_push_of_lt {d : Document} {n : Node} {i : Nat} (h : i < d.size) :
    (d.push n).get? i = d.get? i := by
  rw [get?_push, if_neg (by omega)]

/-- A change of one node changes that node only. -/
theorem get?_modify (d : Document) (j : Nat) (f : Node → Node) (i : Nat) :
    (d.modify j f).get? i = if j = i then (d.get? i).map f else d.get? i := by
  simp [modify, get?, Array.getElem?_modify]

/-- The node that is changed. -/
theorem get?_modify_self (d : Document) (i : Nat) (f : Node → Node) :
    (d.modify i f).get? i = (d.get? i).map f := by
  rw [get?_modify, if_pos rfl]

/-- Another node. -/
theorem get?_modify_of_ne {d : Document} {i j : Nat} (h : j ≠ i) (f : Node → Node) :
    (d.modify j f).get? i = d.get? i := by
  rw [get?_modify, if_neg h]

/-- Closing changes how and where one node ends, which is not before its start tag does. -/
theorem get?_close (d : Document) (j : Nat) (k : CloseKind) (stop : Nat) (i : Nat) :
    (d.close j k stop).get? i = if j = i then (d.get? i).map fun n =>
      { n with closed := some k, endOffset := some (max stop n.location.stop) } else d.get? i :=
  get?_modify d j _ i

/-- A change of an older node does not see the newest one. -/
private theorem modify_push {d : Document} {i : Nat} (h : i < d.size) (n : Node) (f : Node → Node) :
    (d.push n).modify i f = (d.modify i f).push n := by
  refine eq_of_get?_eq rfl fun j => ?_
  rw [get?_modify, get?_push, get?_push, get?_modify, size_modify]
  by_cases hj : j = d.size
  · rw [if_neg (by omega), if_pos hj, if_pos hj]
  · simp only [if_neg hj]

/-- A node may be closed before or after a new one is added. -/
theorem close_push {d : Document} {i : Nat} (h : i < d.size) (n : Node) (k : CloseKind)
    (stop : Nat) :
    (d.push n).close i k stop = (d.close i k stop).push n :=
  modify_push h n _

/-! ## Two documents with the same numbers -/

/-- The documents have the same number of nodes, and nodes of the same number are related. -/
structure Matches (R : Node → Node → Prop) (d d' : Document) : Prop where
  size_eq : d'.size = d.size
  get? : ∀ (i : Nat) (n : Node), d.get? i = some n → ∃ n', d'.get? i = some n' ∧ R n n'

namespace Matches

variable {R : Node → Node → Prop} {d d' d'' : Document}

/-- Every document matches itself. -/
theorem refl (hR : ∀ n, R n n) (d : Document) : d.Matches R d :=
  ⟨rfl, fun _ n hn => ⟨n, hn, hR n⟩⟩

/-- Matching carries over from document to document. -/
theorem trans (hR : ∀ {a b c}, R a b → R b c → R a c) (h : d.Matches R d') (h' : d'.Matches R d'') :
    d.Matches R d'' := by
  constructor
  · rw [h'.size_eq, h.size_eq]
  · intro i n hn
    obtain ⟨n', hn', hlike⟩ := h.get? i n hn
    obtain ⟨n'', hn'', hlike'⟩ := h'.get? i n' hn'
    exact ⟨n'', hn'', hR hlike hlike'⟩

/-- Changing one node into a related one. -/
theorem modify (hR : ∀ n, R n n) {j : Nat} {f : Node → Node} (hf : ∀ n, R n (f n)) :
    d.Matches R (d.modify j f) := by
  constructor
  · exact d.size_modify j f
  · intro i n hn
    rw [get?_modify]
    split
    · exact ⟨f n, by rw [hn]; rfl, hf n⟩
    · exact ⟨n, hn, hR n⟩

/-- Every node of the second document matches one of the first. -/
theorem exists_get? (h : d.Matches R d') {i : Nat} {n' : Node} (hn' : d'.get? i = some n') :
    ∃ n, d.get? i = some n ∧ R n n' := by
  have hi : i < d.size := by
    rw [← h.size_eq]
    exact lt_size_of_get? hn'
  obtain ⟨n, hn⟩ := exists_get?_of_lt hi
  obtain ⟨o, ho, hlike⟩ := h.get? i n hn
  rw [hn'] at ho
  cases ho
  exact ⟨n, hn, hlike⟩

/-- This holds for every number; those without a node stand for the root. -/
theorem node (h : d.Matches R d') (i : Nat) : R (d.node i) (d'.node i) := by
  cases hn : d.get? i with
  | some n =>
    obtain ⟨n', hn', hlike⟩ := h.get? i n hn
    rw [node_of_get? hn, node_of_get? hn']
    exact hlike
  | none =>
    have hnone : d'.get? i = none := by
      rw [get?_eq_none_iff] at hn ⊢
      rw [h.size_eq]
      exact hn
    obtain ⟨root, hroot, hlike⟩ := h.get? rootId d.root d.get?_rootId
    rw [d'.get?_rootId] at hroot
    cases hroot
    rw [Document.node, Document.node, hn, hnone]
    exact hlike

end Matches

/-! ## A new last child -/

/-- Add a node as the last child of one that is there. -/
def adopt (d : Document) (p : NodeId) (n : Node) : Document :=
  (d.push n).appendChild p d.size

@[simp] theorem size_adopt (d : Document) (p : Nat) (n : Node) :
    (d.adopt p n).size = d.size + 1 := by
  simp [adopt, appendChild]

/-- The new node is where it should be. -/
theorem get?_adopt_new {d : Document} {p : Nat} (hp : p < d.size) (n : Node) :
    (d.adopt p n).get? d.size = some { n with parent := some p } := by
  rw [adopt, appendChild, get?_modify_of_ne (by omega), get?_modify_self, get?_push, if_pos rfl]
  rfl

/-- Its parent has one more child. -/
theorem get?_adopt_parent {d : Document} {p : Nat} {m : Node} (hm : d.get? p = some m) (n : Node) :
    (d.adopt p n).get? p = some { m with children := m.children ++ [d.size] } := by
  have hp := lt_size_of_get? hm
  rw [adopt, appendChild, get?_modify_self, get?_modify_of_ne (by omega), get?_push_of_lt hp, hm]
  rfl

/-- All other nodes are as before. -/
theorem get?_adopt_of_ne {d : Document} {p i : Nat} (hp : i ≠ p) (hi : i ≠ d.size) (n : Node) :
    (d.adopt p n).get? i = d.get? i := by
  rw [adopt, appendChild, get?_modify_of_ne (Ne.symm hp), get?_modify_of_ne (Ne.symm hi), get?_push,
    if_neg hi]

/-- A node that is not the new one was there before, with the same children unless it is the
parent. -/
theorem exists_of_get?_adopt {d : Document} {p i : Nat} {n x : Node}
    (h : (d.adopt p n).get? i = some x) (hi : i ≠ d.size) : ∃ y, d.get? i = some y ∧
      x = { y with children := y.children ++ if i = p then [d.size] else [] } := by
  by_cases hip : i = p
  · subst hip
    rw [adopt, appendChild, get?_modify_self, get?_modify_of_ne (Ne.symm hi), get?_push,
      if_neg hi] at h
    obtain ⟨y, hy, rfl⟩ := Option.map_eq_some_iff.mp h
    exact ⟨y, hy, by rw [if_pos rfl]⟩
  · rw [get?_adopt_of_ne hip hi] at h
    exact ⟨x, h, by rw [if_neg hip, List.append_nil]⟩

end Document

end HtmlLint
