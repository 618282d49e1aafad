import HtmlLint.ContentModel
import HtmlLint.Document.Parsing
import HtmlLint.Proofs.Element.Html
import Mathlib.Data.List.Forall2

/-!
# Elements in the wrong order

A model may say in which order the children of an element come: its groups of patterns give ranks to
the children, and the ranks must not decrease.  The check goes through the children once and keeps
the greatest rank so far with the first child of that rank.  What it reports can be said without
going through them: `IsLate` tells which children are reported and `IsFirstHighest` which one each
of them is told to precede (`permittedOrder_exact`).

Children are told apart by their places among the element children of their parent, from zero on.
Those without a model and those that no group describes have a place and no rank.
-/

namespace HtmlLint

namespace ContentModel

/-! ## Ranks -/

/-- The node has a model, and the group of this number is the first one with a pattern that
describes the node. -/
def HasRank (v : Vocabulary) (groups : List (List Pattern)) (n : Node) (rank : Nat) : Prop :=
  ∃ model group, v.modelOf? n = some model ∧ groups[rank]? = some group ∧
    (∃ p ∈ group, p.admits n (some model) = true) ∧
    ∀ earlier ∈ groups.take rank, ∀ p ∈ earlier, p.admits n (some model) = false

/-- The child at a place has this rank. -/
def RankAt (v : Vocabulary) (groups : List (List Pattern)) (children : List Node) (i rank : Nat) :
    Prop :=
  ∃ n, children[i]? = some n ∧ HasRank v groups n rank

/-- The child at the place comes too late: one before it has a greater rank. -/
def IsLate (v : Vocabulary) (groups : List (List Pattern)) (children : List Node) (i : Nat) :
    Prop :=
  ∃ rank, RankAt v groups children i rank ∧ ∃ j top, j < i ∧
    RankAt v groups children j top ∧ rank < top

/-- Among the children before place `i` none has a greater rank than the one at place `k`, and
before place `k` there is none of the same rank. -/
def IsFirstHighest (v : Vocabulary) (groups : List (List Pattern)) (children : List Node)
    (i k : Nat) : Prop :=
  k < i ∧ ∃ top, RankAt v groups children k top ∧
    (∀ j rank, j < i → RankAt v groups children j rank → rank ≤ top) ∧
    ∀ j rank, j < k → RankAt v groups children j rank → rank < top

/-- The report that a child should stand before another one. -/
def orderViolation (child before : Node) : Violation where
  node := child.id
  text := "Element " ++ child.displayName ++ " must be used before " ++ before.displayName ++
    " in this context"
  context := .obj [("before", .str before.tag), ("child", .str child.tag), ("kind", .str "order")]

variable {v : Vocabulary} {groups : List (List Pattern)} {children : List Node}

/-- The rank of an element is that of the first group that admits it. -/
private theorem rank?_eq_some_iff {n : Node} {model : ElementModel} {rank : Nat} :
    rank? groups n model = some rank ↔ ∃ group, groups[rank]? = some group ∧
      (∃ p ∈ group, p.admits n (some model) = true) ∧
      ∀ earlier ∈ groups.take rank, ∀ p ∈ earlier, p.admits n (some model) = false := by
  rw [rank?, List.findIdx?_eq_some_iff_getElem]
  constructor
  · rintro ⟨hlt, hfound, hbefore⟩
    refine ⟨groups[rank], List.getElem?_eq_getElem hlt,
      by simpa using hfound, fun earlier hmem p hp => ?_⟩
    obtain ⟨k, hk, rfl⟩ := List.mem_take_iff_getElem.mp hmem
    have hno := hbefore k (by omega)
    simp only [List.any_eq_true, not_exists, not_and] at hno
    simpa using hno p hp
  · rintro ⟨group, hgroup, hfound, hbefore⟩
    obtain ⟨hlt, rfl⟩ := List.getElem?_eq_some_iff.mp hgroup
    refine ⟨hlt, by simpa using hfound, fun k hk => ?_⟩
    have hno := hbefore groups[k] (List.mem_take_iff_getElem.mpr ⟨k, by omega, rfl⟩)
    simpa using hno

/-- For an element that something is known about, to have a rank is to be given it. -/
private theorem hasRank_iff {n : Node} {model : ElementModel} (hmodel : v.modelOf? n = some model)
    {rank : Nat} :
    HasRank v groups n rank ↔ rank? groups n model = some rank := by
  rw [rank?_eq_some_iff, HasRank]
  constructor
  · rintro ⟨other, group, hother, hgroup⟩
    rw [hmodel] at hother
    cases hother
    exact ⟨group, hgroup⟩
  · rintro ⟨group, hgroup⟩
    exact ⟨model, group, hmodel, hgroup⟩

/-- An element has one rank at most. -/
private theorem HasRank.unique {n : Node} {rank rank' : Nat} (h : HasRank v groups n rank)
    (h' : HasRank v groups n rank') :
    rank = rank' := by
  have hrank := h
  obtain ⟨model, -, hmodel, -⟩ := hrank
  rw [hasRank_iff hmodel] at h h'
  exact Option.some.inj (h.symm.trans h')

/-- So has the element at a place. -/
private theorem RankAt.unique {i rank rank' : Nat} (h : RankAt v groups children i rank)
    (h' : RankAt v groups children i rank') :
    rank = rank' := by
  obtain ⟨n, hn, hrank⟩ := h
  obtain ⟨n', hn', hrank'⟩ := h'
  rw [hn] at hn'
  cases hn'
  exact hrank.unique hrank'

/-- The rank at a place is that of the element there. -/
private theorem rankAt_iff {i rank : Nat} {n : Node} (hn : children[i]? = some n) :
    RankAt v groups children i rank ↔ HasRank v groups n rank := by
  simp [RankAt, hn]

/-! ## The greatest rank so far -/

/-- What the check keeps when it has gone through the children before a place: the greatest rank
with the first child that has it, or nothing if there is no rank yet. -/
def Keeps (v : Vocabulary) (groups : List (List Pattern)) (children : List Node) (i : Nat) :
    Option (Nat × Node) → Prop
  | none => ∀ j rank, j < i → ¬RankAt v groups children j rank
  | some (top, first) => ∃ k, children[k]? = some first ∧ RankAt v groups children k top ∧
      IsFirstHighest v groups children i k

namespace Keeps

variable {i : Nat} {highest : Option (Nat × Node)} {top rank : Nat} {first : Node}

/-- No rank is greater than the one that is kept. -/
private theorem le (h : Keeps v groups children i (some (top, first))) {j : Nat} (hj : j < i)
    (hrank : RankAt v groups children j rank) : rank ≤ top := by
  obtain ⟨k, -, htop, -, other, hother, hle, -⟩ := h
  rw [htop.unique hother]
  exact hle j rank hj hrank

/-- A child without a rank changes nothing. -/
private theorem unranked (h : Keeps v groups children i highest)
    (hnone : ∀ rank, ¬RankAt v groups children i rank) :
    Keeps v groups children (i + 1) highest := by
  have hbefore : ∀ {j rank : Nat}, j < i + 1 → RankAt v groups children j rank → j < i := by
    intro j rank hj hrank
    have hne : j ≠ i := by
      rintro rfl
      exact hnone rank hrank
    omega
  cases highest with
  | none => exact fun j rank hj hrank => h j rank (hbefore hj hrank) hrank
  | some kept =>
    obtain ⟨k, hk, htop, hlt, top, htop', hle, hfirst⟩ := h
    exact ⟨k, hk, htop,
      by omega, top, htop', fun j rank hj hrank => hle j rank (hbefore hj hrank) hrank, hfirst⟩

/-- Neither does a child whose rank is not greater than the one that is kept. -/
private theorem below (h : Keeps v groups children i (some (top, first)))
    (hrank : RankAt v groups children i rank) (hle : rank ≤ top) :
    Keeps v groups children (i + 1) (some (top, first)) := by
  have hall : ∀ j rank', j < i + 1 → RankAt v groups children j rank' → rank' ≤ top := by
    intro j rank' hj hrank'
    by_cases hji : j < i
    · exact h.le hji hrank'
    · obtain rfl : j = i := by omega
      rw [hrank'.unique hrank]
      exact hle
  obtain ⟨k, hk, htop, hlt, other, hother, -, hfirst⟩ := h
  obtain rfl := htop.unique hother
  exact ⟨k, hk, htop, by omega, top, htop, hall, hfirst⟩

/-- A child whose rank is greater than all before it is kept from then on. -/
private theorem above {n : Node} (hn : children[i]? = some n)
    (hrank : RankAt v groups children i rank)
    (hless : ∀ j rank', j < i → RankAt v groups children j rank' → rank' < rank) :
    Keeps v groups children (i + 1) (some (rank, n)) := by
  refine ⟨i, hn, hrank, by omega, rank, hrank, fun j rank' hj hrank' => ?_, hless⟩
  by_cases hji : j < i
  · exact Nat.le_of_lt (hless j rank' hji hrank')
  · obtain rfl : j = i := by omega
    exact Nat.le_of_eq (hrank'.unique hrank)

/-- The child comes too late if its rank is smaller than the one that is kept. -/
private theorem isLate_iff (h : Keeps v groups children i (some (top, first)))
    (hrank : RankAt v groups children i rank) :
    IsLate v groups children i ↔ rank < top := by
  constructor
  · rintro ⟨rank', hrank', j, other, hj, hother, hlt⟩
    rw [hrank.unique hrank']
    exact Nat.lt_of_lt_of_le hlt (h.le hj hother)
  · intro hlt
    obtain ⟨k, -, htop, hk, -⟩ := h
    exact ⟨rank, hrank, k, top, hk, htop, hlt⟩

end Keeps

/-! ## What is reported -/

/-- The pairs report the children from a place on that come too late: each once and in order, with
the first of the highest ones before it.  `places` tells where the two nodes of each pair stand. -/
def Reports (v : Vocabulary) (groups : List (List Pattern)) (children : List Node) (i : Nat)
    (found : List (Node × Node)) : Prop :=
  ∃ places : List (Nat × Nat), (places.map Prod.fst).Pairwise (· < ·) ∧
    (∀ j, j ∈ places.map Prod.fst ↔ i ≤ j ∧ IsLate v groups children j) ∧
    (∀ place ∈ places, IsFirstHighest v groups children place.1 place.2) ∧
    List.Forall₂ (fun pair place => children[place.1]? = some pair.1 ∧
      children[place.2]? = some pair.2) found places

namespace Reports

variable {i : Nat} {found : List (Node × Node)}

/-- Where no child is left there is nothing to report. -/
private theorem nil (h : children.length ≤ i) : Reports v groups children i [] := by
  refine ⟨[], .nil, fun j => ?_, by simp, .nil⟩
  simp only [List.map_nil, List.not_mem_nil, false_iff, not_and]
  rintro hj ⟨rank, ⟨n, hn, -⟩, -⟩
  have hlt := (List.getElem?_eq_some_iff.mp hn).1
  omega

/-- A child that does not come too late is left out. -/
private theorem skip (h : Reports v groups children (i + 1) found)
    (hi : ¬IsLate v groups children i) :
    Reports v groups children i found := by
  obtain ⟨places, hsorted, hlate, hrest⟩ := h
  refine ⟨places, hsorted, fun j => ?_, hrest⟩
  rw [hlate]
  constructor
  · rintro ⟨hj, hl⟩
    exact ⟨by omega, hl⟩
  · rintro ⟨hj, hl⟩
    have hne : j ≠ i := by
      rintro rfl
      exact hi hl
    exact ⟨by omega, hl⟩

/-- A child that comes too late is reported before the others. -/
private theorem cons (h : Reports v groups children (i + 1) found) (hi : IsLate v groups children i)
    {k : Nat} (hk : IsFirstHighest v groups children i k) {child first : Node}
    (hchild : children[i]? = some child) (hfirst : children[k]? = some first) :
    Reports v groups children i ((child, first) :: found) := by
  obtain ⟨places, hsorted, hlate, hhighest, hfound⟩ := h
  refine ⟨(i, k) :: places, ?_, fun j => ?_, ?_, .cons ⟨hchild, hfirst⟩ hfound⟩
  · rw [List.map_cons, List.pairwise_cons]
    refine ⟨fun j hj => ?_, hsorted⟩
    have hle := ((hlate j).mp hj).1
    omega
  · rw [List.map_cons, List.mem_cons, hlate]
    constructor
    · rintro (rfl | ⟨hj, hl⟩)
      · exact ⟨Nat.le_refl _, hi⟩
      · exact ⟨by omega, hl⟩
    · rintro ⟨hj, hl⟩
      by_cases heq : j = i
      · exact .inl heq
      · exact .inr ⟨by omega, hl⟩
  · intro place hplace
    cases List.mem_cons.mp hplace with
    | inl heq => rw [heq]; exact hk
    | inr hmem => exact hhighest place hmem

end Reports

/-- A child without a rank is passed over. -/
private theorem Reports.of_unranked {i : Nat} {child : Node} {highest : Option (Nat × Node)}
    {rest : List (Node × ElementModel)} (hchild : children[i]? = some child)
    (hnone : ∀ rank, ¬HasRank v groups child rank) (h : Keeps v groups children i highest)
    (hlater : ∀ {kept}, Keeps v groups children (i + 1) kept →
      Reports v groups children (i + 1) (misplaced groups kept rest)) :
    Reports v groups children i (misplaced groups highest rest) := by
  have hno : ∀ rank, ¬RankAt v groups children i rank := by
    intro rank hrank
    exact hnone rank ((rankAt_iff hchild).mp hrank)
  refine (hlater (h.unranked hno)).skip ?_
  rintro ⟨rank, hrank, -⟩
  exact hno rank hrank

/-- A child with a rank is reported if its rank is smaller than the one that is kept, and is kept
itself if its rank is greater. -/
private theorem Reports.of_ranked {i : Nat} {child : Node} {model : ElementModel} {rank : Nat}
    {highest : Option (Nat × Node)} {rest : List (Node × ElementModel)}
    (hchild : children[i]? = some child) (hmodel : v.modelOf? child = some model)
    (hrank : rank? groups child model = some rank) (h : Keeps v groups children i highest)
    (hlater : ∀ {kept}, Keeps v groups children (i + 1) kept →
      Reports v groups children (i + 1) (misplaced groups kept rest)) :
    Reports v groups children i (misplaced groups highest ((child, model) :: rest)) := by
  have hat : RankAt v groups children i rank :=
    (rankAt_iff hchild).mpr ((hasRank_iff hmodel).mpr hrank)
  cases highest with
  | none =>
    simp only [misplaced, hrank]
    refine (hlater (.above hchild hat fun j rank' hj hrank' => absurd hrank' (h j rank' hj))).skip
      ?_
    -- nothing of a rank came before, so the child is not late
    rintro ⟨-, -, j, top, hj, htop, -⟩
    exact h j top hj htop
  | some kept =>
    obtain ⟨top, first⟩ := kept
    have hlate := h.isLate_iff hat
    simp only [misplaced, hrank]
    by_cases hlt : rank < top
    · rw [if_pos hlt]
      -- the child is late, and what is kept is the first of the highest rank before it
      have hnext := hlater (h.below hat (Nat.le_of_lt hlt))
      obtain ⟨k, hk, -, hhighest⟩ := h
      exact hnext.cons (hlate.mpr hlt) hhighest hchild hk
    · rw [if_neg hlt]
      by_cases heq : rank = top
      · rw [if_pos heq]
        exact (hlater (h.below hat (Nat.le_of_eq heq))).skip (mt hlate.mp hlt)
      · rw [if_neg heq]
        -- the child is above all before it and is kept from now on
        refine (hlater (.above hchild hat fun j rank' hj hrank' => ?_)).skip (mt hlate.mp hlt)
        have hle := h.le hj hrank'
        omega

/-- Going on from a place with what has been kept, the check reports what comes too late from there
on. -/
private theorem misplaced_reports (before after : List Node) {highest : Option (Nat × Node)}
    (h : Keeps v groups (before ++ after) before.length highest) :
    Reports v groups (before ++ after) before.length
      (misplaced groups highest
        (after.filterMap fun child => (v.modelOf? child).map (child, ·))) := by
  -- the children are split at the one in hand, whose place is the length of the first part
  induction after generalizing before highest with
  | nil => exact .nil (by simp)
  | cons child after ih =>
    have hchild : (before ++ child :: after)[before.length]? = some child := by simp
    have hlater : ∀ {kept}, Keeps v groups (before ++ child :: after) (before.length + 1) kept →
        Reports v groups (before ++ child :: after) (before.length + 1)
          (misplaced groups kept
            (after.filterMap fun child => (v.modelOf? child).map (child, ·))) := by
      intro kept hkept
      have hnext := @ih (before ++ [child]) kept
      rw [List.append_assoc, List.singleton_append, List.length_append,
        List.length_singleton] at hnext
      exact hnext hkept
    cases hmodel : v.modelOf? child with
    | none =>
      simp only [List.filterMap_cons, hmodel, Option.map_none]
      -- a child without a model has no rank
      refine .of_unranked hchild ?_ h hlater
      rintro rank ⟨model, group, hsome, -⟩
      rw [hmodel] at hsome
      cases hsome
    | some model =>
      simp only [List.filterMap_cons, hmodel, Option.map_some]
      cases hrank : rank? groups child model with
      | none =>
        simp only [misplaced, hrank]
        refine .of_unranked hchild (fun rank hsome => ?_) h hlater
        rw [hasRank_iff hmodel, hrank] at hsome
        cases hsome
      | some rank => exact .of_ranked hchild hmodel hrank h hlater

/-- For a node with a model, the check of the order reports each element child that comes too late,
once and in the order of the children, and names the first child of the highest rank before it as
the one that it must precede.  Nothing is reported exactly if the ranks do not decrease.  A child
comes too late if it has a rank and one before it has a greater one. -/
theorem permittedOrder_exact {v : Vocabulary} {d : Document} {id : NodeId} {parent : Node}
    {model : ElementModel} (hparent : d.get? id = some parent)
    (hmodel : v.modelOf? parent = some model) :
    let children := d.childElements id
    let groups := model.permittedOrder
    (∃ places : List (Nat × Nat), (places.map Prod.fst).Pairwise (· < ·) ∧
      (∀ i, i ∈ places.map Prod.fst ↔ IsLate v groups children i) ∧
      (∀ place ∈ places, IsFirstHighest v groups children place.1 place.2) ∧
      List.Forall₂ (fun violation place => ∃ child first, children[place.1]? = some child ∧
        children[place.2]? = some first ∧ violation = orderViolation child first)
          (permittedOrder v d id) places) ∧
    (permittedOrder v d id = [] ↔ ∀ i j rank rank', i < j → RankAt v groups children i rank →
      RankAt v groups children j rank' → rank ≤ rank') := by
  intro children groups
  have hfound : permittedOrder v d id =
      (misplaced groups none (knownChildren v d id)).map fun pair =>
      orderViolation pair.1 pair.2 := by
    simp only [permittedOrder, known?, hparent, Option.bind_some, hmodel, Option.map_some]
    rfl
  obtain ⟨places, hsorted, hlate, hhighest, hpairs⟩ : Reports v groups children 0
      (misplaced groups none (knownChildren v d id)) :=
    misplaced_reports [] children fun j rank hj => absurd hj (Nat.not_lt_zero j)
  have hexact :
      List.Forall₂ (fun violation place => ∃ child first, children[place.1]? = some child ∧
      children[place.2]? = some first ∧ violation = orderViolation child first)
        (permittedOrder v d id) places := by
    rw [hfound, List.forall₂_map_left_iff]
    exact hpairs.imp fun pair place hpair => ⟨pair.1, pair.2, hpair.1, hpair.2, rfl⟩
  simp only [Nat.zero_le, true_and] at hlate
  refine ⟨⟨places, hsorted, hlate, hhighest, hexact⟩, ?_⟩
  -- nothing is reported if no child comes too late
  have hnil : permittedOrder v d id = [] ↔ places = [] := by
    rw [← List.length_eq_zero_iff, ← List.length_eq_zero_iff, hexact.length_eq]
  rw [hnil]
  constructor
  · rintro rfl i j rank rank' hij hrank hrank'
    refine Nat.le_of_not_lt fun hlt => ?_
    exact absurd ((hlate j).mpr ⟨rank', hrank', i, rank, hij, hrank, hlt⟩) (by simp)
  · intro hordered
    refine List.eq_nil_iff_forall_not_mem.mpr fun place hplace => ?_
    obtain ⟨rank, hrank, j, top, hj, htop, hlt⟩ := (hlate place.1).mp (List.mem_map_of_mem hplace)
    have hle := hordered j place.1 top rank hj htop hrank
    omega

/-- A row and a caption come after two table feet; both are told to precede the first foot.  The
unknown element before the feet has no rank, and the last foot is where it may be. -/
theorem permittedOrder_exact_table :
    let source :=
      "<table><my-row></my-row><tfoot></tfoot><tfoot></tfoot><tr></tr><caption></caption><tfoot></tfoot></table>"
    ∃ d es parent model, parse htmlVocabulary source = .ok (d, es) ∧ d.get? 1 = some parent ∧
      htmlVocabulary.modelOf? parent = some model ∧
      (permittedOrder htmlVocabulary d 1).map (fun x => (x.node, x.text)) =
        [(5, "Element <tr> must be used before <tfoot> in this context"),
          (6, "Element <caption> must be used before <tfoot> in this context")] ∧
      (∃ places : List (Nat × Nat),
        (∀ i, i ∈ places.map Prod.fst ↔
          IsLate htmlVocabulary model.permittedOrder (d.childElements 1) i) ∧
        ∀ place ∈ places,
          IsFirstHighest htmlVocabulary model.permittedOrder (d.childElements 1)
          place.1 place.2) := by
  intro source
  have hchecked : ((parse htmlVocabulary source).toOption.map fun made =>
      (((made.1.get? 1).bind htmlVocabulary.modelOf?).isSome,
        (permittedOrder htmlVocabulary made.1 1).map fun x => (x.node, x.text))) =
      some (true, [(5, "Element <tr> must be used before <tfoot> in this context"),
        (6, "Element <caption> must be used before <tfoot> in this context")]) := by
    decide +kernel
  cases hparsed : parse htmlVocabulary source with
  | error e => rw [hparsed] at hchecked; cases hchecked
  | ok made =>
    obtain ⟨d, es⟩ := made
    rw [hparsed] at hchecked
    simp only [Except.toOption, Option.map_some, Option.some.injEq, Prod.mk.injEq] at hchecked
    obtain ⟨hsome, htexts⟩ := hchecked
    obtain ⟨model, hmodel⟩ := Option.isSome_iff_exists.mp hsome
    obtain ⟨parent, hparent, hmodel⟩ := Option.bind_eq_some_iff.mp hmodel
    obtain ⟨⟨places, -, hlate, hhighest, -⟩, -⟩ := permittedOrder_exact hparent hmodel
    exact ⟨d, es, parent, model, rfl, hparent, hmodel, htexts, places, hlate, hhighest⟩

end ContentModel

end HtmlLint
