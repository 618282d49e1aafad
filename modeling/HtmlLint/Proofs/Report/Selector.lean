import HtmlLint.Proofs.Construction.Childless
import HtmlLint.Proofs.Element.Html
import HtmlLint.Proofs.Token.Concatenation
import HtmlLint.Report.Selector

/-!
# Selectors tell elements apart

The selector of an element is one text, made of the steps on the way to it.  If no two elements have
the same usable `id`, then no two elements have the same selector: `selector?_injective`.

The steps can be read off the text, because none of them holds a blank (`Text.joinWith_injective`).
What a step was made of can be read off the step, because tags hold only characters of names
(`record_tags`), so neither the `#` that marks an `id` nor the parenthesis before a place among
siblings.  So siblings have different steps (`Document.IsTree.eq_of_selectorStep`), and from there
it goes up the tree, to the root or to the nearest usable `id`.
-/

namespace HtmlLint

/-! ## Tags are names -/

/-- Only characters of names stand in the name of a tag. -/
private theorem Token.isNameChar_of_mem_tagName {source : String} {t : Token}
    (ht : t ∈ (tokenize source).tokens) (hkind : t.kind = .tagOpen) :
    ∀ c ∈ t.tagName.toList, isNameChar c = true := by
  obtain ⟨before, after, hrun⟩ := List.append_of_mem ht
  obtain ⟨s₁, s₂, hpoised, -, hturn, -⟩ :=
    Scanner.exists_turn (P := fun _ _ => True) (fun _ _ _ _ _ _ => trivial)
      (fun _ _ _ _ _ _ _ => trivial) (s := .ofSource source.toList) trivial [] trivial hrun
  obtain ⟨gap, after, -, hcut⟩ := Scanner.turn_makesCut hpoised hturn
  generalize htext : t.text.toList = text at hcut
  generalize s₁.mode = mode, s₂.mode = next at hcut
  rw [hkind] at hcut
  cases hcut with
  | tagOpen closing hc hname hstop =>
    rw [(Token.of_tagOpen hkind hc htext).2, String.toList_ofList]
    exact hname

/-- A letter in small stays a character of names. -/
private theorem isNameChar_toLower {c : Char} (h : isNameChar c = true) :
    isNameChar c.toLower = true := by
  unfold Char.toLower
  split
  · rename_i hc
    have hlow : 65 ≤ c.val.toNat := hc.1
    have hhigh : c.val.toNat ≤ 90 := hc.2
    -- a capital moved up by 32 is a small letter
    have hval : (c.val + 32).toNat = c.val.toNat + 32 := by
      rw [UInt32.toNat_add, show (32 : UInt32).toNat = 32 from rfl]
      omega
    apply Scanner.isNameChar_of_isAlpha
    unfold Char.isAlpha Char.isLower
    simp only [Bool.or_eq_true, Bool.and_eq_true, decide_eq_true_eq]
    right
    have hfrom : 97 ≤ (c.val + 32).toNat := by omega
    have hto : (c.val + 32).toNat ≤ 122 := by omega
    exact ⟨UInt32.le_iff_toNat_le.mpr hfrom, UInt32.le_iff_toNat_le.mpr hto⟩
  · exact h

namespace Construction

variable {v : Vocabulary} {c : Construction}

/-- The element that a start tag opens has the name of the tag, as it is written or in small
letters. -/
private theorem tag_of_startTag (h : c.Ready) {first : Token} (hkind : first.kind = .tagOpen)
    (hend : first.isEndTag = false) (rest : List Token) {n : Node}
    (hn : (takeIn v (first :: rest) c).1.document.get? c.document.size = some n) :
    n.tag = first.tagName ∨ n.tag = Text.foldCase first.tagName := by
  have hready := h.start.step v first
  have hdoc : c.start.1.document = c.document := congrArg Stage.document (stage_start c)
  have hopen : (c.push v first).1 = (c.start.1.openTag v first).1 := by
    simp only [push_eq, step_eq, hkind, hend]
    rfl
  -- the element is the new node, and what comes later keeps its tag
  have hp := h.start.lt_size (headD_dropWhile_mem (isEndedBy v first c.start.1) c.start.1)
  obtain ⟨new, hnew, hlike⟩ :=
    (openTag_retains v first c.start.1).get? _ _ (Document.get?_adopt_new hp _)
  rw [← hopen, hdoc] at hnew
  obtain ⟨n', hn', hlike'⟩ := takeIn_foreshadows (v := v) hready rest _ new hnew
  obtain rfl : n' = n := Option.some.inj (hn'.symm.trans hn)
  rw [← hlike'.tag_eq, ← hlike.tag_eq]
  show (if (c.start.1.document.node c.start.1.current).foreign then first.tagName
    else Text.foldCase first.tagName) = _ ∨
    (if (c.start.1.document.node c.start.1.current).foreign then first.tagName
      else Text.foldCase first.tagName) = _
  split
  · exact .inl rfl
  · exact .inr rfl

end Construction

/-- Only characters of names stand in the tags of elements. -/
theorem record_tags {v : Vocabulary} {source : String} (hwhole : (tokenize source).failure = none)
    {n : Node}
    (hn : n ∈ (Construction.record v (tokenize source).tokens
      (byteLength source.toList)).1.elements) :
    ∀ c ∈ n.tag.toList, isNameChar c = true := by
  obtain ⟨before, first, attributes, last, after, htokens, htag, hend, hid⟩ :=
    exists_startTag hwhole hn
  have hfirst : first ∈ (tokenize source).tokens := by simp [htokens]
  have hname := Token.isNameChar_of_mem_tagName hfirst htag.first_kind
  -- the element is there with its tag when all tokens are taken in
  have hget := (Construction.record_isTree v _ _).get?_id hn
  rw [Construction.record_eq] at hget
  obtain ⟨o, ho, hlike⟩ := (Construction.finish_retains v _).exists_get? hget
  rw [htokens, Construction.takeIn_append, hid] at ho
  have hready := (Construction.Ready.ofLength (byteLength source.toList)).takeIn v before
  intro c hc
  rw [← hlike.tag_eq] at hc
  obtain htag | htag := Construction.tag_of_startTag hready htag.first_kind hend _ ho
  · rw [htag] at hc
    exact hname c hc
  · rw [htag, Text.toList_foldCase] at hc
    obtain ⟨x, hx, rfl⟩ := List.mem_map.mp hc
    exact isNameChar_toLower (hname x hx)

/-! ## Parents -/

/-- The first node is the root, and no other one is. -/
def Document.HasOneRoot (d : Document) : Prop :=
  ∀ (i : Nat) (n : Node), d.get? i = some n → (n.kind = .root ↔ i = rootId)

namespace Document.HasOneRoot

variable {d : Document}

/-- A change that keeps what a node is makes no second root. -/
private theorem modify (h : d.HasOneRoot) {j : Nat} {f : Node → Node}
    (hf : ∀ n, (f n).kind = n.kind) :
    (d.modify j f).HasOneRoot := by
  intro i n hn
  rw [get?_modify] at hn
  split at hn
  · obtain ⟨o, ho, rfl⟩ := Option.map_eq_some_iff.mp hn
    rw [hf]
    exact h i o ho
  · exact h i n hn

/-- Neither does a new node that is none. -/
private theorem adopt (h : d.HasOneRoot) {p : Nat} (hp : p < d.size) {new : Node}
    (hnew : new.kind ≠ .root) :
    (d.adopt p new).HasOneRoot := by
  intro i n hn
  by_cases hi : i = d.size
  · subst hi
    rw [get?_adopt_new hp] at hn
    cases hn
    exact iff_of_false hnew (Nat.ne_of_gt d.size_pos)
  · obtain ⟨o, ho, hlike⟩ := exists_retains_of_adopt hn hi
    rw [← hlike.kind_eq]
    exact h i o ho

end Document.HasOneRoot

/-- So no move makes a second root. -/
private theorem Move.hasOneRoot {s t : Stage} {ms : List Moment} (hm : Move s ms t) (hs : s.Sound)
    (h : s.document.HasOneRoot) : t.document.HasOneRoot := by
  cases hm with
  | remark | announce => exact h
  | store | widen | close => exact h.modify fun _ => rfl
  | text => exact h.adopt hs.head_lt_size (by simp [Node.newText, Node.fresh])
  | @place d ids n =>
    obtain ⟨tag, location, foreign, void, hn⟩ := hs.upcoming_eq n rfl
    exact h.adopt hs.head_lt_size (by simp [hn, Node.newElement, Node.fresh])

/-- Neither does a run. -/
private theorem Run.hasOneRoot {s t : Stage} {ms : List Moment} (hr : Run s ms t) (hs : s.Sound)
    (h : s.document.HasOneRoot) : t.document.HasOneRoot := by
  induction hr with
  | done s => exact h
  | move first _ ih => exact ih (hs.move first) (first.hasOneRoot hs h)

/-- Every document has one root. -/
private theorem Construction.record_hasOneRoot (v : Vocabulary) (ts : List Token) (length : Nat) :
    (record v ts length).1.HasOneRoot := by
  obtain ⟨ms, d, hrun, hrecord⟩ := record_run v ts length
  have hstart : (Stage.ofLength length).document.HasOneRoot := by
    intro i n hn
    have hi : i < 1 := Document.lt_size_of_get? hn
    obtain rfl : i = 0 := by omega
    cases hn
    exact iff_of_true rfl rfl
  rw [hrecord]
  exact (hrun.hasOneRoot (.ofLength length) hstart).modify fun _ => rfl

/-! ## Usable ids -/

/-- The element has an `id`, and its value is not empty and holds no blank. -/
def Node.HasUsableId (n : Node) (id : String) : Prop :=
  (∃ a value, n.attribute? "id" = some a ∧ a.value = some value ∧ value.text = id) ∧
    id ≠ "" ∧ ∀ c ∈ id.toList, Text.isBlank c = false

/-- The test for an id finds the ids that can be used. -/
private theorem Node.usableId?_eq_some_iff {n : Node} {id : String} :
    n.usableId? = some id ↔ n.HasUsableId id := by
  simp [usableId?, HasUsableId, Option.filter_eq_some_iff, Option.bind_eq_some_iff]

/-! ## Texts of steps -/

namespace Text

/-- The first of several steps ends at the first separator. -/
private theorem toList_joinWith_cons_cons (s t : String) (rest : List String) :
    (joinWith " > " (s :: t :: rest)).toList =
      s.toList ++ ' ' :: ('>' :: ' ' :: (joinWith " > " (t :: rest)).toList) := by
  simp

/-- Texts without blanks can be read off the text that joins them. -/
theorem joinWith_injective {xs ys : List String} (hxs : xs ≠ []) (hys : ys ≠ [])
    (hx : ∀ s ∈ xs, ' ' ∉ s.toList) (hy : ∀ s ∈ ys, ' ' ∉ s.toList)
    (h : joinWith " > " xs = joinWith " > " ys) : xs = ys := by
  -- a single text without blanks is not one that joins several
  have hsingle : ∀ {s y y' : String} {ys : List String}, ' ' ∉ s.toList →
      joinWith " > " [s] ≠ joinWith " > " (y :: y' :: ys) := by
    intro s y y' ys hs heq
    have hlist := congrArg String.toList heq
    rw [toList_joinWith_cons_cons, joinWith_singleton] at hlist
    exact hs (by rw [hlist]; simp)
  induction xs generalizing ys with
  | nil => exact absurd rfl hxs
  | cons x xs ih =>
    obtain ⟨y, ys, rfl⟩ := List.exists_cons_of_ne_nil hys
    have hx' : ' ' ∉ x.toList := hx x (List.mem_cons_self ..)
    have hy' : ' ' ∉ y.toList := hy y (List.mem_cons_self ..)
    cases xs with
    | nil =>
      cases ys with
      | nil => exact congrArg (fun s => [s]) h
      | cons y' ys => exact absurd h (hsingle hx')
    | cons x' xs =>
      cases ys with
      | nil => exact absurd h.symm (hsingle hy')
      | cons y' ys =>
        have hlist := congrArg String.toList h
        rw [toList_joinWith_cons_cons, toList_joinWith_cons_cons] at hlist
        obtain ⟨hhead, hrest⟩ := append_cons_inj hx' hy' hlist
        simp only [List.cons.injEq, true_and, String.toList_inj] at hrest
        rw [String.toList_inj.mp hhead, ih (List.cons_ne_nil _ _) (List.cons_ne_nil _ _)
          (fun s hs => hx s (List.mem_cons_of_mem _ hs))
          (fun s hs => hy s (List.mem_cons_of_mem _ hs)) hrest]

end Text

namespace Document

variable {d : Document}

/-- Among the children of a node an element is found by its number. -/
private theorem IsTree.exists_findIdx? (h : d.IsTree) {p : Nat} {n m : Node}
    (hm : d.get? p = some m) (hmem : n ∈ d.childElements p) :
    ∃ k, (d.childElements p).findIdx? (fun s => s.id == n.id) = some k ∧
    (d.childElements p)[k]? = some n := by
  cases hidx : (d.childElements p).findIdx? fun s => s.id == n.id with
  | none =>
    have hnot := List.findIdx?_eq_none_iff.mp hidx n hmem
    simp at hnot
  | some k =>
    obtain ⟨hk, hid, -⟩ := List.findIdx?_eq_some_iff_getElem.mp hidx
    have hfound := ((h.mem_childElements_iff hm).mp (List.getElem_mem hk)).1
    have hn := ((h.mem_childElements_iff hm).mp hmem).1
    rw [eq_of_beq hid, hn] at hfound
    exact ⟨k, rfl, List.getElem?_eq_some_iff.mpr ⟨hk, (Option.some.inj hfound).symm⟩⟩

/-- The step of an element is its tag, if no sibling has the same, or else the tag with the place
among the siblings. -/
private theorem IsTree.selectorStep_cases (h : d.IsTree) {p : Nat} {n m : Node}
    (hm : d.get? p = some m) (hmem : n ∈ d.childElements p) :
    d.selectorStep n = n.tag ∧ (∀ s ∈ d.childElements p, s.tag = n.tag → s = n) ∨
      ∃ k, (d.childElements p)[k]? = some n ∧
        d.selectorStep n = n.tag ++ ":nth-child(" ++ toString (k + 1) ++ ")" := by
  obtain ⟨-, -, hp⟩ := (h.mem_childElements_iff hm).mp hmem
  obtain ⟨k, hidx, hk⟩ := h.exists_findIdx? hm hmem
  have hparent : n.parent.bind d.get? = some m := by rw [hp, Option.bind_some, hm]
  have hid : m.id = p := h.id_eq hm
  simp only [selectorStep, hparent, hid, hidx]
  split
  · exact .inr ⟨k, hk, rfl⟩
  · rename_i hfew
    refine .inl ⟨rfl, fun s hs htag => ?_⟩
    -- both stand in a list of at most one element
    have hn : n ∈ (d.childElements p).filter fun s => s.tag == n.tag :=
      List.mem_filter.mpr ⟨hmem, beq_self_eq_true _⟩
    have hs : s ∈ (d.childElements p).filter fun s => s.tag == n.tag :=
      List.mem_filter.mpr ⟨hs, beq_iff_eq.mpr htag⟩
    match hlist : (d.childElements p).filter fun s => s.tag == n.tag with
    | [] => simp [hlist] at hn
    | [only] =>
      rw [hlist] at hn hs
      rw [List.mem_singleton.mp hn, List.mem_singleton.mp hs]
    | _ :: _ :: _ => simp [hlist] at hfew

/-- Siblings have different steps. -/
theorem IsTree.eq_of_selectorStep (h : d.IsTree) {p : Nat} {a b m : Node} (hm : d.get? p = some m)
    (ha : a ∈ d.childElements p) (hb : b ∈ d.childElements p) (hatag : '(' ∉ a.tag.toList)
    (hbtag : '(' ∉ b.tag.toList) (hstep : d.selectorStep a = d.selectorStep b) : a = b := by
  have hplace :
      ∀ (tag : String) (k : Nat), (tag ++ ":nth-child(" ++ toString (k + 1) ++ ")").toList =
      (tag.toList ++ ":nth-child".toList) ++ '(' :: ((toString (k + 1)).toList ++ [')']) := by
    intro tag k
    simp
  have hname : ∀ {tag : String}, '(' ∉ tag.toList → '(' ∉ tag.toList ++ ":nth-child".toList := by
    intro tag htag
    simp [htag]
  -- a bare tag has no parenthesis, so it is never a tag with a place
  have hmixed : ∀ {tag : String} (other : String) (k : Nat), '(' ∉ tag.toList →
      tag ≠ other ++ ":nth-child(" ++ toString (k + 1) ++ ")" := by
    rintro tag other k htag rfl
    exact htag (by rw [hplace]; simp)
  obtain ⟨hplain, honly⟩ | ⟨k, hk, hnth⟩ := h.selectorStep_cases hm ha
  · obtain ⟨hplain', -⟩ | ⟨k', -, hnth'⟩ := h.selectorStep_cases hm hb
    · rw [hplain, hplain'] at hstep
      exact (honly b hb hstep.symm).symm
    · rw [hplain, hnth'] at hstep
      exact absurd hstep (hmixed b.tag k' hatag)
  · obtain ⟨hplain', -⟩ | ⟨k', hk', hnth'⟩ := h.selectorStep_cases hm hb
    · rw [hnth, hplain'] at hstep
      exact absurd hstep.symm (hmixed a.tag k hbtag)
    · -- the places are printed between parentheses, of which the first is the first one of the step
      rw [hnth, hnth'] at hstep
      have hlist := congrArg String.toList hstep
      rw [hplace, hplace] at hlist
      have hprinted :=
        List.append_cancel_right (append_cons_inj (hname hatag) (hname hbtag) hlist).2
      have hread := congrArg (fun digits => Nat.ofDigitChars 10 digits 0) hprinted
      have hsame : k + 1 = k' + 1 := by simpa [Nat.toString_eq_ofList_toDigits] using hread
      obtain rfl : k = k' := Nat.succ.inj hsame
      exact Option.some.inj (hk.symm.trans hk')

/-! ## Steps on the way to an element -/

/-- What selectors rely on: a tree of elements below one root, in which tags are names. -/
structure IsSelectable (d : Document) : Prop where
  tree : d.IsTree
  root : d.HasOneRoot
  childless : d.AtomsChildless
  tags : ∀ n ∈ d.elements, ∀ c ∈ n.tag.toList, isNameChar c = true

/-- The steps of the selector of a node, the last one first. -/
def stepsTo (d : Document) (n : Node) : List String :=
  d.selectorSteps n (d.ancestors n.id)

/-- An id ends the path. -/
private theorem selectorSteps_of_id {n : Node} {id : String} (h : n.usableId? = some id)
    (around : List Node) :
    d.selectorSteps n around = ["#" ++ id] := by
  unfold selectorSteps
  simp only [h]

/-- Without an id the path goes on with the parent, up to the root. -/
private theorem selectorSteps_cons {n : Node} (h : n.usableId? = none) (parent : Node)
    (outer : List Node) :
    d.selectorSteps n (parent :: outer) =
      if parent.isElement then d.selectorStep n :: d.selectorSteps parent outer
          else [d.selectorStep n] := by
  rw [selectorSteps]
  simp only [h]

namespace IsSelectable

/-- Elements stand in elements or in the root. -/
private theorem exists_parent (h : d.IsSelectable) {n : Node} (hn : n ∈ d.elements) :
    ∃ p m, d.get? p = some m ∧ n ∈ d.childElements p ∧
      (m ∈ d.elements ∨ p = rootId ∧ m.isElement = false) := by
  have hget := h.tree.get?_id hn
  have helement := (mem_elements.mp hn).2
  have hkind : n.kind = .element := by simpa [Node.isElement] using helement
  have hroot : n.id ≠ rootId := fun hroot => by
    have := (h.root n.id n hget).mpr hroot
    rw [hkind] at this
    cases this
  obtain ⟨p, hp⟩ : ∃ p, n.parent = some p :=
    Option.ne_none_iff_exists'.mp fun hnone => hroot ((h.tree.parent_eq_none_iff hget).mp hnone)
  obtain ⟨m, hm⟩ : ∃ m, d.get? p = some m :=
    exists_get?_of_lt (Nat.lt_trans (h.tree.parent_lt hget hp) (lt_size_of_get? hget))
  refine ⟨p, m, hm, (h.tree.mem_childElements_iff hm).mpr ⟨hget, helement, hp⟩, ?_⟩
  cases hmkind : m.kind with
  | element => exact .inl (mem_elements.mpr ⟨⟨p, hm⟩, by simp [Node.isElement, hmkind]⟩)
  | root => exact .inr ⟨(h.root p m hm).mp hmkind, by simp [Node.isElement, hmkind]⟩
  | text content =>
    -- text has no children
    have hchild := (h.tree.mem_children_iff hget hm).mpr hp
    rw [h.childless p m hm (.inr (.inr (.inr ⟨content, hmkind⟩)))] at hchild
    cases hchild

/-- The way to an element begins at its `id`, or it is the way to its parent and one step more. -/
private theorem stepsTo_cases (h : d.IsSelectable) {n : Node} (hn : n ∈ d.elements) :
    (∃ id, n.usableId? = some id ∧ d.stepsTo n = ["#" ++ id]) ∨
      n.usableId? = none ∧ ∃ p m, d.get? p = some m ∧ n ∈ d.childElements p ∧
        (m ∈ d.elements ∧ m.id < n.id ∧ d.stepsTo n = d.selectorStep n :: d.stepsTo m ∨
          p = rootId ∧ d.stepsTo n = [d.selectorStep n]) := by
  unfold stepsTo
  cases hid : n.usableId? with
  | some id =>
    exact .inl ⟨id, rfl, selectorSteps_of_id hid _⟩
  | none =>
    right
    -- without an id the step is below that of the parent, which may be the root
    obtain ⟨p, m, hm, hmem, hinner⟩ := h.exists_parent hn
    obtain ⟨hget, -, hp⟩ := (h.tree.mem_childElements_iff hm).mp hmem
    refine ⟨rfl, p, m, hm, hmem, ?_⟩
    rw [h.tree.ancestors_eq hget hp hm, selectorSteps_cons hid]
    rcases hinner with hm' | ⟨hroot, hno⟩
    · have helement := (mem_elements.mp hm').2
      have hpid : m.id = p := h.tree.id_eq hm
      refine .inl ⟨hm', hpid ▸ h.tree.parent_lt hget hp, ?_⟩
      rw [if_pos helement, hpid]
    · exact .inr ⟨hroot, by rw [hno]; rfl⟩

/-- The path to an element has at least one step. -/
private theorem stepsTo_ne_nil (h : d.IsSelectable) {n : Node} (hn : n ∈ d.elements) :
    d.stepsTo n ≠ [] := by
  obtain ⟨id, -, hsteps⟩ | ⟨-, p, m, -, -, ⟨-, -, hsteps⟩ | ⟨-, hsteps⟩⟩ :=
    h.stepsTo_cases hn <;> simp [hsteps]

/-- A step holds no characters but those of names and those that tell a place. -/
private theorem not_mem_selectorStep (h : d.IsSelectable) {n : Node} (hn : n ∈ d.elements)
    {c : Char} (hname : isNameChar c = false) (hplace : c ∉ ":nth-child()".toList)
    (hdigit : c.isDigit = false) :
    c ∉ (d.selectorStep n).toList := by
  have htag : c ∉ n.tag.toList := by
    intro hc
    rw [h.tags n hn c hc] at hname
    cases hname
  obtain ⟨p, m, hm, hmem, -⟩ := h.exists_parent hn
  obtain ⟨hplain, -⟩ | ⟨k, -, hnth⟩ := h.tree.selectorStep_cases hm hmem
  · rw [hplain]
    exact htag
  · -- a number is printed in digits
    have hprinted : c ∉ (toString (k + 1)).toList := by
      intro hc
      rw [Nat.toString_eq_repr, Nat.toList_repr] at hc
      rw [Nat.isDigit_of_mem_toDigits (by decide) (by decide) hc] at hdigit
      cases hdigit
    rw [hnth]
    simp_all

/-- No step holds a blank. -/
private theorem blank_not_mem_stepsTo (h : d.IsSelectable) {n : Node} (hn : n ∈ d.elements) :
    ∀ s ∈ d.stepsTo n, ' ' ∉ s.toList := by
  -- parents are older than their children, so the induction is on numbers
  induction hk : n.id using Nat.strongRecOn generalizing n with
  | ind k ih =>
    have hstep := h.not_mem_selectorStep hn (c := ' ') (by decide +kernel) (by decide) (by decide)
    obtain ⟨id, hid, hsteps⟩ | ⟨-, p, m, -, -, ⟨hm, hlt, hsteps⟩ | ⟨-, hsteps⟩⟩ :=
      h.stepsTo_cases hn
    · intro s hs
      rw [hsteps, List.mem_singleton] at hs
      obtain ⟨-, -, hblank⟩ := Node.usableId?_eq_some_iff.mp hid
      rw [hs, String.toList_append]
      intro hc
      rcases List.mem_append.mp hc with hc | hc
      · simp at hc
      · have := hblank ' ' hc
        revert this
        decide
    · intro s hs
      rw [hsteps] at hs
      cases hs with
      | head => exact hstep
      | tail _ hs => exact ih m.id (hk ▸ hlt) hm rfl s hs
    · intro s hs
      rw [hsteps, List.mem_singleton] at hs
      rw [hs]
      exact hstep

/-- Different elements are reached by different steps, if no two of them have the same usable
`id`. -/
private theorem stepsTo_injective (h : d.IsSelectable)
    (hids : ∀ a ∈ d.elements, ∀ b ∈ d.elements, ∀ id, a.HasUsableId id → b.HasUsableId id → a = b)
    {a b : Node} (ha : a ∈ d.elements) (hb : b ∈ d.elements) (heq : d.stepsTo a = d.stepsTo b) :
    a = b := by
  -- the step to an `id` is none to a tag
  have hmark : ∀ {n : Node} (id : String), n ∈ d.elements → "#" ++ id ≠ d.selectorStep n := by
    intro n id hn hsame
    have hno := h.not_mem_selectorStep hn (c := '#') (by decide +kernel) (by decide) (by decide)
    exact hno (by rw [← hsame]; simp)
  have hparen : ∀ {n : Node}, n ∈ d.elements → '(' ∉ n.tag.toList := by
    intro n hn hc
    exact absurd (h.tags n hn _ hc) (by decide +kernel)
  induction hk : a.id using Nat.strongRecOn generalizing a b with
  | ind k ih =>
    obtain ⟨id, hid, hsteps⟩ | ⟨-, p, m, hm, hmem, hway⟩ := h.stepsTo_cases ha
    · obtain ⟨id', hid', hsteps'⟩ | ⟨-, p', m', -, -, ⟨-, -, hsteps'⟩ | ⟨-, hsteps'⟩⟩ :=
        h.stepsTo_cases hb
      · rw [hsteps, hsteps'] at heq
        have hsame : id = id' := by simpa using heq
        exact hids a ha b hb id (Node.usableId?_eq_some_iff.mp hid)
          (Node.usableId?_eq_some_iff.mp (hsame ▸ hid'))
      · rw [hsteps, hsteps'] at heq
        exact absurd (List.cons.inj heq).1 (hmark id hb)
      · rw [hsteps, hsteps'] at heq
        exact absurd (List.cons.inj heq).1 (hmark id hb)
    · obtain ⟨id', -, hsteps'⟩ | ⟨-, p', m', hm', hmem', hway'⟩ := h.stepsTo_cases hb
      · rw [hsteps'] at heq
        obtain ⟨-, -, hsteps⟩ | ⟨-, hsteps⟩ := hway <;>
        · rw [hsteps] at heq
          exact absurd (List.cons.inj heq).1.symm (hmark id' ha)
      · -- both have a parent, which is the same one by induction or because it is the root
        obtain ⟨hstep, hparent⟩ : d.selectorStep a = d.selectorStep b ∧ p = p' := by
          rcases hway with ⟨hin, hlt, hsteps⟩ | ⟨hroot, hsteps⟩ <;>
            rcases hway' with ⟨hin', -, hsteps'⟩ | ⟨hroot', hsteps'⟩ <;>
            rw [hsteps, hsteps'] at heq <;>
            obtain ⟨hstep, hrest⟩ := List.cons.inj heq
          · have hsame := ih m.id (hk ▸ hlt) hin hin' hrest rfl
            exact ⟨hstep, by rw [← h.tree.id_eq hm, ← h.tree.id_eq hm', hsame]⟩
          · exact absurd hrest (h.stepsTo_ne_nil hin)
          · exact absurd hrest.symm (h.stepsTo_ne_nil hin')
          · exact ⟨hstep, hroot.trans hroot'.symm⟩
        subst hparent
        exact h.tree.eq_of_selectorStep hm hmem hmem' (hparen ha) (hparen hb) hstep

/-- The selector of an element is its path, from the outermost step on. -/
private theorem selector?_eq (h : d.IsSelectable) {n : Node} (hn : n ∈ d.elements) :
    d.selector? n.id = some (Text.joinWith " > " (d.stepsTo n).reverse) := by
  rw [selector?, h.tree.get?_id hn, Option.bind_some, if_pos (mem_elements.mp hn).2]
  rfl

end IsSelectable

end Document

/-- The elements of every document of a source have selectors. -/
private theorem record_isSelectable (v : Vocabulary) {source : String}
    (hwhole : (tokenize source).failure = none) :
    (Construction.record v (tokenize source).tokens (byteLength source.toList)).1.IsSelectable where
  tree := Construction.record_isTree v _ _
  root := Construction.record_hasOneRoot v _ _
  childless := (record_atomsChildless v source).1
  tags _ hn := record_tags hwhole hn

/-- A source that can be cut into tokens is parsed, and every element has a selector.  If no two
elements have the same usable `id`, then no two have the same selector. -/
theorem selector?_injective {source : String} (h : (tokenize source).failure = none)
    (v : Vocabulary) :
    ∃ d es, parse v source = .ok (d, es) ∧ (∀ a ∈ d.elements, ∃ s, d.selector? a.id = some s) ∧
      ((∀ a ∈ d.elements, ∀ b ∈ d.elements, ∀ id, a.HasUsableId id → b.HasUsableId id → a = b) →
        ∀ a ∈ d.elements, ∀ b ∈ d.elements, d.selector? a.id = d.selector? b.id → a = b) := by
  have hd := record_isSelectable v h
  refine ⟨_, _, parse_eq h v, fun a ha => ⟨_, hd.selector?_eq ha⟩, fun hids a ha b hb hsame => ?_⟩
  rw [hd.selector?_eq ha, hd.selector?_eq hb] at hsame
  have hblank := fun {n} (hn : n ∈ _) s hs => hd.blank_not_mem_stepsTo hn s (List.mem_reverse.mp hs)
  have hsteps := Text.joinWith_injective (by simpa using hd.stepsTo_ne_nil ha)
    (by simpa using hd.stepsTo_ne_nil hb) (hblank ha) (hblank hb) (Option.some.inj hsame)
  exact hd.stepsTo_injective hids ha hb (List.reverse_inj.mp hsteps)

/-- A way that begins at an `id`, an `id` with a blank that is not used, and siblings with the same
tag. -/
theorem selector?_injective_siblings :
    let source := "<div id=x><p></p><b></b><p></p></div><p id=\"a b\"></p><div></div>"
    ∃ d es, parse htmlVocabulary source = .ok (d, es) ∧
      d.elements.map (fun n => d.selector? n.id) =
        [some "#x", some "#x > p:nth-child(1)", some "#x > b",
        some "#x > p:nth-child(3)", some "p", some "div:nth-child(3)"] ∧
      (∀ a ∈ d.elements, ∀ b ∈ d.elements, ∀ id, a.HasUsableId id → b.HasUsableId id → a = b) ∧
      ∀ a ∈ d.elements, ∀ b ∈ d.elements, d.selector? a.id = d.selector? b.id → a = b := by
  intro source
  have hwhole : (tokenize source).failure = none := by decide +kernel
  have hchecked : ((parse htmlVocabulary source).toOption.map fun made =>
      (made.1.elements.map (fun n => made.1.selector? n.id),
        made.1.elements.all fun a => made.1.elements.all fun b =>
          a.usableId?.isNone || a.usableId? != b.usableId? || a == b)) =
      some ([some "#x", some "#x > p:nth-child(1)", some "#x > b",
        some "#x > p:nth-child(3)", some "p", some "div:nth-child(3)"], true) := by
    decide +kernel
  obtain ⟨d, es, hparse, -, hinjective⟩ := selector?_injective hwhole htmlVocabulary
  rw [hparse] at hchecked
  simp only [Except.toOption, Option.map_some, Option.some.injEq, Prod.mk.injEq,
    List.all_eq_true] at hchecked
  obtain ⟨hselectors, hdistinct⟩ := hchecked
  have hids : ∀ a ∈ d.elements, ∀ b ∈ d.elements, ∀ id, a.HasUsableId id →
      b.HasUsableId id → a = b := by
    intro a ha b hb id hida hidb
    have hboth := hdistinct a ha b hb
    rw [Node.usableId?_eq_some_iff.mpr hida, Node.usableId?_eq_some_iff.mpr hidb] at hboth
    simpa using hboth
  exact ⟨d, es, hparse, hselectors, hids, hinjective hids⟩

end HtmlLint
