import HtmlLint.Proofs.Construction.Ledger
import HtmlLint.Proofs.Construction.Nesting
import HtmlLint.Proofs.Element.Html
import HtmlLint.Proofs.Token.Tiling

/-!
# Every structural error has its reason

There are three reasons for a structural error: an element is closed by the end tag of an element
around it, or by the end of the source, although its end tag may not be left out, or an end tag
belongs to no open element.

The ledger of a document counts closings.  Since every element is closed once, counting closings is
counting elements (`countP_closings`), and since no two end tags of a source are at the same place
(`Token.endTags_of_tokenize`), each of them can be looked up: `parse_accounts_for_errors`.
-/

namespace HtmlLint

/-! ## Counting elements -/

/-- Every element is closed once, so that counting closings is counting elements. -/
theorem countP_closings {d : Document} (htree : d.IsTree) {es : List Event}
    (hclosed : ∀ i : Nat, es.countP (Event.concerns .tagClose i) =
      if (d.elementState? i).join.isSome then 1 else 0)
    {p : Event → Bool}
    (hp : ∀ e, p e = true → ∃ id previous kind l, e = .tagClose id previous kind l) :
    es.countP p = d.elements.countP fun n => es.any fun e => p e && e.target? == some n.id := by
  rw [List.countP_eq_length_filter, List.countP_eq_length_filter]
  -- the numbers of what is closed and the numbers of the elements are the same
  let closed : List Nat := (es.filter p).map fun e => e.target?.getD rootId
  let elements : List Nat :=
    (d.elements.filter fun n => es.any fun e => p e && e.target? == some n.id).map Node.id
  suffices hperm : closed.Perm elements by simpa [closed, elements] using hperm.length_eq
  have hnodup : closed.Nodup := by
    rw [List.nodup_iff_count]
    intro i
    have hle : closed.count i ≤ es.countP (Event.concerns .tagClose i) := by
      show List.countP (· == i) ((es.filter p).map _) ≤ _
      rw [List.countP_map, List.countP_filter]
      apply List.countP_mono_left
      intro e _ he
      simp only [Function.comp_apply, Bool.and_eq_true, beq_iff_eq] at he
      obtain ⟨id, previous, kind, l, rfl⟩ := hp e he.2
      have hid : id = i := he.1
      simp [Event.concerns, Event.kind, Event.target?, hid]
    rw [hclosed] at hle
    split at hle <;> omega
  have hnodup' : elements.Nodup := by
    have hall : (d.elements.map Node.id).Nodup := by
      rw [htree.map_id_elements]
      exact List.nodup_range.sublist List.filter_sublist
    exact hall.sublist (List.filter_sublist.map Node.id)
  rw [List.perm_ext_iff_of_nodup hnodup hnodup']
  intro i
  simp only [closed, elements, List.mem_map, List.mem_filter, List.any_eq_true,
    Bool.and_eq_true, beq_iff_eq]
  constructor
  · rintro ⟨e, ⟨he, hpe⟩, htarget⟩
    obtain ⟨id, previous, kind, l, rfl⟩ := hp e hpe
    have hid : id = i := htarget
    subst hid
    -- what is closed is an element
    have hpos : 0 < es.countP (Event.concerns .tagClose id) :=
      List.countP_pos_iff.mpr ⟨_, he, by simp [Event.concerns, Event.kind, Event.target?]⟩
    rw [hclosed] at hpos
    obtain ⟨state, hstate⟩ : ∃ state, d.elementState? id = some state := by
      cases hstate : d.elementState? id with
      | none => simp [hstate] at hpos
      | some state => exact ⟨state, rfl⟩
    obtain ⟨n, hn, hkind, -⟩ := Document.elementState?_eq_some.mp hstate
    have hnid := htree.id_eq hn
    refine ⟨n, ⟨Document.mem_elements.mpr ⟨⟨id, hn⟩, by simp [Node.isElement, hkind]⟩, ?_⟩, hnid⟩
    exact ⟨_, he, hpe, by rw [hnid]; rfl⟩
  · rintro ⟨n, ⟨hn, e, he, hpe, htarget⟩, rfl⟩
    exact ⟨e, ⟨he, hpe⟩, by rw [htarget]; rfl⟩

namespace Event

/-- Which event it is that lacks an end. -/
private theorem lacksEnd_eq_true {v : Vocabulary} {d : Document} {kind : CloseKind} {e : Event}
    (h : e.lacksEnd v d kind = true) :
    ∃ id l, e = .tagClose id none kind l ∧ Construction.hasOptionalEnd v (d.node id) = false := by
  cases e with
  | tagClose id previous how l =>
    cases previous with
    | some _ => cases h
    | none =>
      simp only [lacksEnd, Bool.and_eq_true, beq_iff_eq, Bool.not_eq_true'] at h
      exact ⟨id, l, by rw [h.1], h.2⟩
  | _ => cases h

/-- Which event it is that closes an element. -/
private theorem isClosing_eq_true {kind : CloseKind} {id : NodeId} {e : Event}
    (h : e.isClosing kind id = true) :
    ∃ l, e = .tagClose id none kind l := by
  cases e with
  | tagClose target previous how l =>
    cases previous with
    | some _ => cases h
    | none =>
      simp only [isClosing, Bool.and_eq_true, beq_iff_eq] at h
      exact ⟨l, by rw [h.1, h.2]⟩
  | _ => cases h

end Event

/-- The closings of elements that need an end tag and have none are as many as these elements. -/
private theorem countP_lacksEnd {d : Document} (htree : d.IsTree) {es : List Event}
    (hclosed : ∀ i : Nat, es.countP (Event.concerns .tagClose i) =
      if (d.elementState? i).join.isSome then 1 else 0)
    (v : Vocabulary) (kind : CloseKind) :
    es.countP (Event.lacksEnd v d kind) =
      d.elements.countP fun n => es.any (Event.isClosing kind n.id) &&
        !Construction.hasOptionalEnd v n := by
  -- an element is closed once at most, so counting events is counting elements
  rw [countP_closings htree hclosed]
  · apply List.countP_congr
    intro n hn
    have hnode : d.node n.id = n := Document.node_of_get? (htree.get?_id hn)
    simp only [List.any_eq_true, Bool.and_eq_true, beq_iff_eq, Bool.not_eq_true']
    constructor
    · rintro ⟨e, he, hlacks, htarget⟩
      obtain ⟨id, l, rfl, hoptional⟩ := Event.lacksEnd_eq_true hlacks
      have hid : id = n.id := Option.some.inj htarget
      subst hid
      rw [hnode] at hoptional
      exact ⟨⟨_, he, by simp [Event.isClosing]⟩, hoptional⟩
    · rintro ⟨⟨e, he, hcloses⟩, hoptional⟩
      obtain ⟨l, rfl⟩ := Event.isClosing_eq_true hcloses
      exact ⟨_, he, by simp [Event.lacksEnd, hnode, hoptional], rfl⟩
  · intro e he
    obtain ⟨id, l, rfl, -⟩ := Event.lacksEnd_eq_true he
    exact ⟨id, none, kind, l, rfl⟩

namespace Construction

/-- In the end every element was closed once, and remembers how. -/
private theorem record_closed (v : Vocabulary) (ts : List Token) (length : Nat) :
    let made := record v ts length
    let es := made.2.map Moment.event
    (∀ i : Nat, es.countP (Event.concerns .tagClose i) =
      if (made.1.elementState? i).join.isSome then 1 else 0) ∧
    ∀ (i : Nat) (kind : CloseKind), made.1.elementState? i = some (some kind) ↔
      ∃ previous l, .tagClose i previous kind l ∈ es := by
  obtain ⟨ms, d, hrun, hrecord⟩ := record_run v ts length
  have hacc := (Accounted.ofLength length).run hrun (Stage.Sound.ofLength length)
  rw [List.nil_append] at hacc
  have hcount := hacc.closed .tagClose (.inl rfl)
  simp only [hrecord, List.map_append, List.map_cons, List.map_nil, Document.elementState?_ended]
  refine ⟨?_, ?_⟩
  · intro i
    rw [← hcount i, List.cons_append, List.countP_cons, List.countP_append]
    simp [Event.concerns, Event.kind]
  · intro i kind
    constructor
    · intro hstate
      obtain ⟨previous, l, hmem⟩ := hacc.kind_mem i kind hstate
      exact ⟨previous, l, by simp [hmem]⟩
    · rintro ⟨previous, l, hmem⟩
      have hmem' : Event.tagClose i previous kind l ∈ ms.map Moment.event := by simpa using hmem
      have hconcerns : ∀ previous kind l, (Event.tagClose i previous kind l).concerns
          .tagClose i = true := by
        simp [Event.concerns, Event.kind, Event.target?]
      have hpos : 0 < (ms.map Moment.event).countP (Event.concerns .tagClose i) :=
        List.countP_pos_iff.mpr ⟨_, hmem', hconcerns _ _ _⟩
      have hone := hcount i
      -- what is closed was closed in some way, and there is no other closing of it
      rw [hone] at hpos
      obtain ⟨other, hother⟩ : ∃ other, d.elementState? i = some (some other) := by
        cases hstate : d.elementState? i with
        | none => simp [hstate] at hpos
        | some state =>
          cases state with
          | none => simp [hstate] at hpos
          | some other => exact ⟨other, rfl⟩
      obtain ⟨previous', l', hclose⟩ := hacc.kind_mem i other hother
      simp only [hother, Option.join_some, Option.isSome_some, if_true] at hone
      have heq := eq_of_countP_eq_one hone hmem' (hconcerns _ _ _) hclose (hconcerns _ _ _)
      cases heq
      exact hother

/-- An element is closed by the end of the source, and not by a new element, exactly if it remembers
so. -/
private theorem record_any_isClosing {v : Vocabulary} {ts : List Token} {length : Nat} {n : Node}
    (hn : n ∈ (record v ts length).1.elements) :
    ((record v ts length).2.map Moment.event).any (Event.isClosing .endOfInput n.id) =
      (n.closed == some .endOfInput) := by
  have hget := (Construction.record_isTree v ts length).get?_id hn
  have hkind : n.kind = .element := by simpa [Node.isElement] using (Document.mem_elements.mp hn).2
  have hstate : (record v ts length).1.elementState? n.id = some n.closed :=
    Document.elementState?_eq_some.mpr ⟨n, hget, hkind, rfl⟩
  have hclosed := (record_closed v ts length).2 n.id .endOfInput
  rw [hstate, Option.some.injEq] at hclosed
  rw [Bool.eq_iff_iff, List.any_eq_true, beq_iff_eq, hclosed]
  constructor
  · rintro ⟨e, he, hcloses⟩
    obtain ⟨l, rfl⟩ := Event.isClosing_eq_true hcloses
    exact ⟨none, l, he⟩
  · rintro ⟨previous, l, he⟩
    obtain ⟨missed, account, rest, hes, hledger, hrest⟩ := record_ledger v ts length
    have hmem := he
    rw [hes] at hmem
    -- no new element closes anything at the end of the source
    cases List.mem_append.mp hmem with
    | inl hmem => exact absurd rfl ((hledger.not_endOfInput _ hmem).2 _ _ _)
    | inr hmem =>
      obtain hneutral | ⟨id, -, ⟨hclose, -⟩ | hclose⟩ := hrest.cases_of_mem hmem
      · simp [Event.IsNeutral] at hneutral
      · cases hclose
      · cases hclose
        exact ⟨_, he, by simp [Event.isClosing]⟩

end Construction

/-! ## End tags of a source -/

/-- Every end tag of a source has its place. -/
private theorem Token.Tiles.map_offset_endTags {inTag : Bool} {p : Position} {cs : List Char}
    {ts : List Token} (h : Token.Tiles True inTag p cs ts) {waiting : Option Location}
    (hw : inTag = false → waiting = none) :
    (Token.endTags waiting ts).map (·.offset) =
      waiting.toList.map (·.offset) ++ (ts.filter Token.isEndTag).map (·.location.offset) := by
  induction ts generalizing inTag p cs waiting with
  | nil =>
    rw [hw (h trivial).1]
    rfl
  | cons t ts ih =>
    obtain ⟨gap, later, -, -, -, hin, -, hlater⟩ := h
    unfold Token.endTags
    cases hkind : t.kind with
    | tagOpen =>
      -- a tag begins outside of tags, where nothing waits
      rw [hkind] at hin hlater
      rw [hw hin.symm, ih hlater (by simp [TokenKind.leadsIntoTag]), List.filter_cons]
      split <;> simp
    | tagClose =>
      rw [hkind] at hlater
      have hstart : t.isEndTag = false := by simp [Token.isEndTag, hkind]
      simp only [List.map_append, ih hlater fun _ => rfl, List.filter_cons, hstart]
      simp [Location.offset_extendTo, Function.comp_def]
    | attrName | attrValue =>
      rw [hkind] at hlater
      have hstart : t.isEndTag = false := by simp [Token.isEndTag, hkind]
      simp only [ih hlater (by simp [TokenKind.leadsIntoTag]), List.filter_cons, hstart]
      rfl
    | text | comment | doctype =>
      rw [hkind] at hin hlater
      have hstart : t.isEndTag = false := by simp [Token.isEndTag, hkind]
      simp only [ih hlater fun _ => hw hin.symm, List.filter_cons, hstart]
      rfl

/-- The end tags of a source are where their tokens are, and no two of them are at the same
place. -/
theorem Token.endTags_of_tokenize {source : String} (h : (tokenize source).failure = none) :
    (Token.endTags none (tokenize source).tokens).map (·.offset) =
        ((tokenize source).tokens.filter Token.isEndTag).map (·.location.offset) ∧
      (Token.endTags none (tokenize source).tokens).Nodup := by
  have htiles := Scanner.run_tiles (s := .ofSource source.toList) trivial
  have hwhole : ((Scanner.ofSource source.toList).run.failure = none) = True := eq_true h
  rw [hwhole] at htiles
  have hoffsets : (Token.endTags none (tokenize source).tokens).map (·.offset) =
      ((tokenize source).tokens.filter Token.isEndTag).map (·.location.offset) :=
    Token.Tiles.map_offset_endTags htiles fun _ => rfl
  refine ⟨hoffsets, ?_⟩
  have hslices := htiles.isSliceOf (List.nil_append _).symm
  have hpairwise := htiles.pairwise
  -- a token is not empty and stops before the next one begins
  have hlt : (tokenize source).tokens.Pairwise fun t u =>
      t.location.offset < u.location.offset := by
    refine hpairwise.imp_of_mem fun {t u} ht _ hle => ?_
    have hslice := hslices t ht
    obtain ⟨before, after, -, -, hsize, -⟩ := hslice.stands
    obtain ⟨c, cs, htext⟩ := List.exists_cons_of_ne_nil hslice.ne_nil
    have hpos := c.utf8Size_pos
    rw [htext, byteLength_cons] at hsize
    unfold Location.stop at hle
    omega
  have hincreasing :
      ((Token.endTags none (tokenize source).tokens).map (·.offset)).Pairwise (· < ·) := by
    rw [hoffsets, List.pairwise_map]
    exact hlt.sublist List.filter_sublist
  rw [List.pairwise_map] at hincreasing
  apply hincreasing.imp
  intro l l' hlt heq
  rw [heq] at hlt
  exact Nat.lt_irrefl _ hlt

/-! ## The account -/

/-- The errors in a document whose end tags are at different places. -/
private theorem Construction.record_countP_isError (v : Vocabulary) {ts : List Token} (length : Nat)
    (hnodup : (Token.endTags none ts).Nodup) :
    let made := record v ts length
    let es := made.2.map Moment.event
    es.countP Event.isError =
      made.1.elements.countP (fun n => n.closed == some .endOfInput && !hasOptionalEnd v n) +
      made.1.elements.countP (fun n => es.any (Event.isClosing .implicit n.id) &&
        !hasOptionalEnd v n) +
      (Token.endTags none ts).countP fun l => !es.any (Event.endsAt l) := by
  intro made es
  obtain ⟨missed, account, rest, hes, hledger, hrest⟩ : ∃ missed account rest, es =
      account ++ rest ∧
      Ledger v made.1 (Token.endTags none ts) missed account ∧
      IsLeftover v made.1 rest := record_ledger v ts length
  have hcount : ∀ kind, es.countP (Event.lacksEnd v made.1 kind) = _ := fun kind =>
    countP_lacksEnd (Construction.record_isTree v ts length) (record_closed v ts length).1 v kind
  have hunclosed :
      made.1.elements.countP (fun n => n.closed == some .endOfInput && !hasOptionalEnd v n) =
      es.countP (Event.lacksEnd v made.1 .endOfInput) := by
    rw [hcount]
    apply List.countP_congr
    intro n hn
    rw [record_any_isClosing hn]
  have hmissed : (Token.endTags none ts).countP (fun l => !es.any (Event.endsAt l)) =
      missed.length := by
    rw [← hledger.countP_not_endsAt hnodup]
    apply List.countP_congr
    intro l _
    rw [hes, List.any_append, Event.any_endsAt_eq_false (hrest.isOfEndTag_eq_false l),
      Bool.or_false]
  have hnone : account.countP (Event.lacksEnd v made.1 .endOfInput) = 0 := by
    rw [List.countP_eq_zero]
    intro e he hlacks
    obtain ⟨id, l, rfl, -⟩ := Event.lacksEnd_eq_true hlacks
    exact (hledger.not_endOfInput _ he).2 _ _ _ rfl
  -- the account has the errors about end tags, and the rest those about what is left
  have haccount := hledger.countP_isError
  have hrestErrors := hrest.countP_isError
  have hrestSwept := hrest.countP_lacksEnd
  rw [hunclosed, ← hcount, hmissed, hes, List.countP_append, List.countP_append, List.countP_append]
  omega

/-- An error about an element that is not closed is told at its start tag. -/
private theorem Construction.record_unclosed (v : Vocabulary) (ts : List Token) (length : Nat)
    {tag : String} {target : Option NodeId} {l : Location}
    (h : .parseError (.unclosedElement tag) target l ∈ (record v ts length).2.map Moment.event) :
    ∃ n ∈ (record v ts length).1.elements, target = some n.id ∧ l = n.location ∧ tag = n.tag ∧
      n.closed = some .endOfInput ∧ hasOptionalEnd v n = false := by
  obtain ⟨missed, account, rest, hes, hledger, hrest⟩ := record_ledger v ts length
  rw [hes] at h
  -- such an error comes from what is left open at the end, never from the tokens
  cases List.mem_append.mp h with
  | inl h => exact absurd rfl ((hledger.not_endOfInput _ h).1 tag target l)
  | inr h =>
    obtain hneutral | ⟨id, hclosing, ⟨herror, hoptional⟩ | hclose⟩ := hrest.cases_of_mem h
    · exact hneutral.elim
    · cases herror
      have hmem : .tagClose id none .endOfInput ((record v ts length).1.node id).location ∈
          (record v ts length).2.map Moment.event := by
        rw [hes]
        exact List.mem_append_right _ hclosing
      -- the closing that follows the error is the one the final document shows
      have hstate := ((record_closed v ts length).2 id .endOfInput).mpr ⟨_, _, hmem⟩
      obtain ⟨n, hn, hkind, hclosed⟩ := Document.elementState?_eq_some.mp hstate
      rw [Document.node_of_get? hn] at hoptional ⊢
      have hid := (Construction.record_isTree v ts length).id_eq hn
      refine ⟨n, Document.mem_elements.mpr ⟨⟨id, hn⟩, ?_⟩, ?_, rfl, rfl, hclosed, hoptional⟩
      · simp [Node.isElement, hkind]
      · rw [hid]
    · cases hclose

/-- The errors in a source that can be cut into tokens are all accounted for.  Each end tag closes
one element, or closes nothing and is reported once.  Apart from the end tags that close nothing,
the errors are about the elements that the end of the source closes and about those that the end tag
of an element around them closes, one for each of these whose end tag may not be left out.  What is
said about an element that is not closed is said of this element and at its start tag. -/
theorem parse_accounts_for_errors (v : Vocabulary) {source : String}
    (h : (tokenize source).failure = none) :
    ∃ d es, parse v source = .ok (d, es) ∧
      let ends := Token.endTags none (tokenize source).tokens
      ends.map (·.offset) = ((tokenize source).tokens.filter Token.isEndTag).map
        (·.location.offset) ∧
      (∀ l ∈ ends, Event.Settle l es) ∧
      es.countP Event.isError =
        d.elements.countP (fun n => n.closed == some .endOfInput &&
          !Construction.hasOptionalEnd v n) +
        d.elements.countP (fun n => es.any (Event.isClosing .implicit n.id) &&
          !Construction.hasOptionalEnd v n) +
        ends.countP (fun l => !es.any (Event.endsAt l)) ∧
      ∀ tag target l, .parseError (.unclosedElement tag) target l ∈ es →
        ∃ n ∈ d.elements, target = some n.id ∧ l = n.location ∧ tag = n.tag ∧
        n.closed = some .endOfInput ∧
          Construction.hasOptionalEnd v n = false := by
  obtain ⟨hoffsets, hnodup⟩ := Token.endTags_of_tokenize h
  rw [parse_eq h]
  refine ⟨_, _, rfl, hoffsets, fun l hl => ?_, Construction.record_countP_isError v _ hnodup,
    fun tag target l hmem => Construction.record_unclosed v _ _ hmem⟩
  obtain ⟨missed, account, rest, hes, hledger, hrest⟩ :=
    Construction.record_ledger v (tokenize source).tokens (byteLength source.toList)
  rw [hes]
  exact (hledger.settle hnodup hl).append rest (hrest.isOfEndTag_eq_false l)

/-- Three errors: one element is closed by the end tag around it, one end tag belongs to nothing,
and one element is never closed. -/
theorem parse_accounts_for_errors_three :
    let source := "<div><b></div></i><u>"
    ∃ v, Vocabulary.htmlWith .empty = .ok v ∧ (tokenize source).failure = none ∧
      ((parse v source).toOption.map fun made => made.2.countP Event.isError) = some 3 ∧
      ∃ d es, parse v source = .ok (d, es) ∧
        let ends := Token.endTags none (tokenize source).tokens
        ends.map (·.offset) = ((tokenize source).tokens.filter Token.isEndTag).map
          (·.location.offset) ∧
        (∀ l ∈ ends, Event.Settle l es) ∧
        es.countP Event.isError =
          d.elements.countP (fun n => n.closed == some .endOfInput &&
            !Construction.hasOptionalEnd v n) +
          d.elements.countP (fun n => es.any (Event.isClosing .implicit n.id) &&
            !Construction.hasOptionalEnd v n) +
          ends.countP (fun l => !es.any (Event.endsAt l)) ∧
        ∀ tag target l, .parseError (.unclosedElement tag) target l ∈ es →
          ∃ n ∈ d.elements, target = some n.id ∧ l = n.location ∧ tag = n.tag ∧
          n.closed = some .endOfInput ∧
            Construction.hasOptionalEnd v n = false := by
  intro source
  have hscan : (tokenize source).failure = none := by decide +kernel
  have herrors : ((Vocabulary.htmlWith .empty).toOption.map fun v =>
      (parse v source).toOption.map fun made => made.2.countP Event.isError) = some (some 3) := by
    rw [Vocabulary.htmlWith_empty]
    decide +kernel
  cases hv : Vocabulary.htmlWith .empty with
  | error e => rw [hv] at herrors; cases herrors
  | ok v =>
    rw [hv] at herrors
    exact ⟨v, rfl, hscan, Option.some.inj herrors, parse_accounts_for_errors v hscan⟩

end HtmlLint
