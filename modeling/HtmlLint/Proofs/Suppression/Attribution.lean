import HtmlLint.Suppression

/-!
# Which suppression takes a message away

Resolving marks suppressions while it goes, but no decision depends on a mark: which suppression
takes a message away is known beforehand (`Suppressions.taker?`).  So taking messages away is a
filter, and what it marks are the takers: `Suppressions.suppress_eq`.
-/

namespace HtmlLint

/-- The suppression as if it had taken nothing away. -/
def Suppression.unmarked (s : Suppression) : Suppression :=
  { s with matched := false }

namespace Suppressions

/-! ## Marks -/

/-- Note that the suppressions at these places took something away. -/
def markAll (entries : List Suppression) (places : List Nat) : List Suppression :=
  places.foldl mark entries

/-- Marking a place changes whether the suppression there has matched. -/
theorem getElem?_mark (entries : List Suppression) (j i : Nat) :
    (mark entries j)[i]? = entries[i]?.map fun s =>
    { s with matched := s.matched || decide (i = j) } := by
  rw [mark, List.getElem?_modify, Option.map_eq_map]
  congr 1
  funext s
  by_cases h : j = i
  · simp [h]
  · simp [h, Ne.symm h]

/-- So does marking several of them. -/
theorem getElem?_markAll (entries : List Suppression) (places : List Nat) (i : Nat) :
    (markAll entries places)[i]? =
      entries[i]?.map fun s => { s with matched := s.matched || decide (i ∈ places) } := by
  induction places generalizing entries with
  | nil => simp [markAll]
  | cons j places ih =>
    rw [show markAll entries (j :: places) = markAll (mark entries j) places from rfl, ih,
      getElem?_mark, Option.map_map]
    congr 1
    funext s
    simp [Bool.or_assoc]

/-- Places may be marked in two parts. -/
theorem markAll_append (entries : List Suppression) (places more : List Nat) :
    markAll entries (places ++ more) = markAll (markAll entries places) more :=
  List.foldl_append ..

/-- Without marks nothing has changed. -/
private theorem map_unmarked_markAll (entries : List Suppression) (places : List Nat) :
    (markAll entries places).map Suppression.unmarked = entries.map Suppression.unmarked := by
  refine List.ext_getElem? fun i => ?_
  rw [List.getElem?_map, List.getElem?_map, getElem?_markAll, Option.map_map]
  rfl

/-! ## What does not depend on marks -/

/-- Which suppression is the innermost does not depend on marks. -/
private theorem innermost?_map_unmarked (entries : List Suppression) (rule : String)
    (offset : Nat) :
    innermost? (entries.map Suppression.unmarked) rule offset = innermost? entries rule offset := by
  simp only [innermost?, List.zipIdx_map, List.filterMap_map]
  rfl

/-- In particular not on those that are set. -/
theorem innermost?_markAll (entries : List Suppression) (places : List Nat) (rule : String)
    (offset : Nat) :
    innermost? (markAll entries places) rule offset = innermost? entries rule offset := by
  rw [← innermost?_map_unmarked, map_unmarked_markAll, innermost?_map_unmarked]

/-- Neither do the overlaps. -/
private theorem overlaps_map_unmarked (entries : List Suppression) :
    overlaps (entries.map Suppression.unmarked) = overlaps entries := by
  simp only [overlaps, List.zipIdx_map, List.filterMap_map, ← List.map_take, List.any_map]
  rfl

/-- In particular not on marks that are set. -/
theorem overlaps_markAll (entries : List Suppression) (places : List Nat) :
    overlaps (markAll entries places) = overlaps entries := by
  rw [← overlaps_map_unmarked, map_unmarked_markAll, overlaps_map_unmarked]

/-! ## Taking messages away -/

/-- The place of the suppression that takes a message away. -/
def taker? (entries : List Suppression) (m : Message) : Option Nat :=
  m.rule.bind fun rule => innermost? entries rule m.location.offset

/-- Which suppression takes a message does not depend on marks. -/
private theorem taker?_markAll (entries : List Suppression) (places : List Nat) (m : Message) :
    taker? (markAll entries places) m = taker? entries m := by
  simp only [taker?, innermost?_markAll]

/-- The messages that nothing takes away remain, and the takers of the others are marked. -/
theorem suppress_eq (entries : List Suppression) (messages : List Message) :
    suppress entries messages =
      (markAll entries (messages.filterMap (taker? entries)),
        messages.filter fun m => (taker? entries m).isNone) := by
  induction messages generalizing entries with
  | nil => rfl
  | cons m messages ih =>
    cases htaker : taker? entries m with
    | none =>
      rw [suppress, ← taker?, htaker, ih]
      simp [htaker]
    | some i =>
      -- the mark that is set here changes no later decision
      have hlater : taker? (mark entries i) = taker? entries := funext (taker?_markAll entries [i])
      rw [suppress, ← taker?, htaker]
      simp only [ih, hlater, List.filterMap_cons, htaker, List.filter_cons, Option.isNone_some]
      rfl

/-! ## What a taker is like -/

/-- One that is chosen was there to choose. -/
theorem mem_of_foldl_inner {reaching : List (Nat × ByteRange)} {best : Option (Nat × ByteRange)}
    {found : Nat × ByteRange} (h : reaching.foldl inner best = some found) :
    found ∈ reaching ∨ best = some found := by
  induction reaching generalizing best with
  | nil => exact .inr h
  | cons next reaching ih =>
    obtain hmem | hbest := ih h
    · exact .inl (List.mem_cons_of_mem _ hmem)
    · simp only [inner] at hbest
      split at hbest
      · cases hbest; exact .inl (List.mem_cons_self ..)
      · split at hbest
        · cases hbest; exact .inl (List.mem_cons_self ..)
        · exact .inr hbest

/-- The suppressions of a rule that cover an offset, each with its place and the bytes that it
covers. -/
def reaching (entries : List Suppression) (rule : String) (offset : Nat) : List (Nat × ByteRange) :=
  entries.zipIdx.filterMap fun (s, i) =>
    if s.appliesTo rule && s.covers offset then s.coverage?.map (i, ·) else none

/-- The innermost suppression is found by going through those that reach the place. -/
theorem innermost?_eq (entries : List Suppression) (rule : String) (offset : Nat) :
    innermost? entries rule offset = ((reaching entries rule offset).foldl inner none).map
      Prod.fst := rfl

/-- A suppression reaches a place if it applies to the rule and covers the place. -/
theorem mem_reaching_iff {entries : List Suppression} {rule : String} {offset i : Nat}
    {range : ByteRange} :
    (i, range) ∈ reaching entries rule offset ↔
      ∃ s, entries[i]? = some s ∧ s.appliesTo rule = true ∧ s.covers offset = true ∧
        s.coverage? = some range := by
  simp only [reaching, List.mem_filterMap]
  constructor
  · rintro ⟨⟨s, k⟩, hs, hreaches⟩
    simp only [Option.ite_none_right_eq_some, Bool.and_eq_true, Option.map_eq_some_iff] at hreaches
    obtain ⟨⟨happlies, hcovers⟩, range', hrange, heq⟩ := hreaches
    cases heq
    exact ⟨s, List.mk_mem_zipIdx_iff_getElem?.mp hs, happlies, hcovers, hrange⟩
  · rintro ⟨s, hs, happlies, hcovers, hrange⟩
    exact ⟨(s, i), List.mk_mem_zipIdx_iff_getElem?.mpr hs, by simp [happlies, hcovers, hrange]⟩

/-- The innermost suppression of a rule at an offset is about the rule and covers the offset. -/
theorem of_innermost? {entries : List Suppression} {rule : String} {offset i : Nat}
    (h : innermost? entries rule offset = some i) :
    ∃ s, entries[i]? = some s ∧ s.appliesTo rule = true ∧ s.covers offset = true := by
  rw [innermost?_eq] at h
  obtain ⟨⟨i, range⟩, hfound, rfl⟩ := Option.map_eq_some_iff.mp h
  have hmem := (mem_of_foldl_inner hfound).resolve_right nofun
  obtain ⟨s, hs, happlies, hcovers, -⟩ := mem_reaching_iff.mp hmem
  exact ⟨s, hs, happlies, hcovers⟩

end Suppressions

end HtmlLint
