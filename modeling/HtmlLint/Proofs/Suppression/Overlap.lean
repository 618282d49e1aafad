import HtmlLint.Proofs.Suppression.Unused

/-!
# Which overlaps are warned of

Two suppressions of a rule overlap in part if one of their ranges starts inside the other and goes
beyond it.  Resolving warns of that, but it compares each suppression only with the ones before it,
and only in one direction: the earlier suppression has to be the one that starts first
(`any_warnsOfOverlap_overlaps`).

Suppressions that run from the end of their directive start in the order in which they are written,
so that nothing is missed among them.  One that is written for the next element may start after a
later one: `overlap_warned_iff`.
-/

namespace HtmlLint

namespace Suppressions

/-- The message warns that directives for this rule overlap. -/
def warnsOfOverlap (rule : String) (m : Message) : Bool :=
  m.rule.isNone && m.severity == .warning &&
    m.text == "Directive for \"" ++ rule ++ "\" partially overlaps a previous directive"

/-- The suppression at a place is one of this rule and covers this range. -/
def CoversAt (entries : List Suppression) (rule : String) (i : Nat) (range : ByteRange) : Prop :=
  ∃ sup, entries[i]? = some sup ∧ sup.rule = some rule ∧ sup.coverage? = some range

/-- The suppressions at two places are of this rule; the second one starts inside the first one and
goes beyond it. -/
def Crosses (entries : List Suppression) (rule : String) (i j : Nat) : Prop :=
  ∃ a b, CoversAt entries rule i a ∧ CoversAt entries rule j b ∧
    a.start < b.start ∧ b.start < a.stop ∧ a.stop < b.stop

/-! ## The warnings -/

/-- A rule is named between two fixed parts of the text, so that the text tells which one it is. -/
private theorem overlapText_inj {rule rule' : String}
    (h : "Directive for \"" ++ rule ++ "\" partially overlaps a previous directive" =
      "Directive for \"" ++ rule' ++ "\" partially overlaps a previous directive") :
    rule = rule' := by
  have hlist := congrArg String.toList h
  simp only [String.toList_append, List.append_assoc] at hlist
  exact String.toList_inj.mp (List.append_cancel_right (List.append_cancel_left hlist))

/-- There is a suppression of the rule before this place that starts first and crosses the range. -/
private theorem any_earlier_iff {entries : List Suppression} {rule : String} {j : Nat}
    {b : ByteRange} :
    ((entries.take j).any fun earlier =>
        earlier.rule == some rule && earlier.coverage?.any (·.crosses b)) = true ↔
      ∃ i a, i < j ∧ CoversAt entries rule i a ∧ a.start < b.start ∧ b.start < a.stop ∧
      a.stop < b.stop := by
  simp only [List.any_eq_true, Bool.and_eq_true, beq_iff_eq, Option.any_eq_true, ByteRange.crosses,
    decide_eq_true_eq]
  constructor
  · rintro ⟨earlier, hmem, hrule, a, ha, ⟨hstart, hinside⟩, hbeyond⟩
    obtain ⟨i, hi⟩ := List.mem_iff_getElem?.mp hmem
    -- a place in the part before `j` is a place before `j`
    have hlt : i < j := by
      have hlen := (List.getElem?_eq_some_iff.mp hi).1
      rw [List.length_take] at hlen
      omega
    rw [List.getElem?_take_of_lt hlt] at hi
    exact ⟨i, a, hlt, ⟨earlier, hi, hrule, ha⟩, hstart, hinside, hbeyond⟩
  · rintro ⟨i, a, hlt, ⟨earlier, hi, hrule, ha⟩, hstart, hinside, hbeyond⟩
    have hmem : earlier ∈ entries.take j := by
      apply List.mem_of_getElem? (i := i)
      rw [List.getElem?_take_of_lt hlt, hi]
    exact ⟨earlier, hmem, hrule, a, ha, ⟨hstart, hinside⟩, hbeyond⟩

/-- Among the warnings is one that names a rule exactly if two suppressions of it cross, of which
the one that starts first was begun first. -/
theorem any_warnsOfOverlap_overlaps {entries : List Suppression} {rule : String} :
    (∃ m ∈ overlaps entries, warnsOfOverlap rule m = true) ↔ ∃ i j, i < j ∧
    Crosses entries rule i j := by
  simp only [overlaps, List.mem_filterMap]
  constructor
  · rintro ⟨m, ⟨⟨later, j⟩, hmem, hm⟩, hwarns⟩
    have hj : entries[j]? = some later := List.mk_mem_zipIdx_iff_getElem?.mp hmem
    split at hm
    · rename_i rule' b hrule hb
      rw [Option.ite_none_right_eq_some] at hm
      obtain ⟨hearlier, hm⟩ := hm
      cases hm
      simp only [warnsOfOverlap, Bool.and_eq_true, beq_iff_eq] at hwarns
      -- the text of the warning names the rule
      obtain rfl : rule' = rule := overlapText_inj hwarns.2
      obtain ⟨i, a, hlt, ha, hcross⟩ := any_earlier_iff.mp hearlier
      exact ⟨i, j, hlt, a, b, ha, ⟨later, hj, hrule, hb⟩, hcross⟩
    · cases hm
  · rintro ⟨i, j, hlt, a, b, ha, ⟨later, hj, hrule, hb⟩, hcross⟩
    have hearlier := any_earlier_iff.mpr ⟨i, a, hlt, ha, hcross⟩
    refine ⟨{ rule := none, severity := .warning, location := later.location
              text := "Directive for \"" ++ rule ++ "\" partially overlaps a previous directive" },
      ⟨(later, j), List.mk_mem_zipIdx_iff_getElem?.mpr hj, ?_⟩, ?_⟩
    · simp only [hrule, hb, hearlier, if_true]
    · simp [warnsOfOverlap]

/-! ## Nothing else warns of overlaps -/

/-- A message that is taken away is one of a rule, and so is no warning about directives. -/
private theorem countP_filter_taker? (entries : List Suppression) (rule : String)
    (messages : List Message) :
    (messages.filter fun m => (taker? entries m).isNone).countP (warnsOfOverlap rule) =
      messages.countP (warnsOfOverlap rule) := by
  rw [List.countP_filter]
  apply List.countP_congr
  intro m _
  cases hm : m.rule with
  | none => simp [taker?, hm]
  | some r => simp [warnsOfOverlap, hm]

/-- Reports on suppressions are messages of a rule. -/
private theorem countP_reports (s : Suppressions) (rule : String) (messages : List Message) :
    (s.reports messages).countP (warnsOfOverlap rule) = 0 := by
  rw [List.countP_eq_zero]
  intro m hm
  unfold reports at hm
  split at hm
  · cases hm
  · obtain ⟨found, -, hfound⟩ := List.mem_filterMap.mp hm
    simp only [seenReport?, Option.ite_none_right_eq_some, Option.map_eq_some_iff] at hfound
    obtain ⟨-, sup, -, rfl⟩ := hfound
    simp [warnsOfOverlap, unusedReport]

/-- What is wrong with a directive is an error. -/
private theorem severity_of_mem_complaintsAbout {configured : List String} {e : Event} {m : Message}
    (h : m ∈ complaintsAbout configured e) : m.severity = .error := by
  cases e with
  | directive action rules parent location =>
    obtain ⟨r, -, rfl⟩ := List.mem_map.mp h
    rfl
  | invalidDirective fault location => rw [List.mem_singleton.mp h]
  | _ => cases h

/-- Whatever is observed, the complaints are errors. -/
private theorem severity_of_mem_complaints {s : Suppressions}
    (hs : ∀ m ∈ s.complaints, m.severity = .error) (ms : List Moment) :
    ∀ m ∈ (ms.foldl observe s).complaints, m.severity = .error := by
  induction ms generalizing s with
  | nil => exact hs
  | cons first ms ih =>
    apply ih
    intro m hm
    cases List.mem_append.mp hm with
    | inl hm => exact hs m hm
    | inr hm => exact severity_of_mem_complaintsAbout hm

/-- Resolving adds a warning that names a rule exactly if two suppressions of it cross, of which the
one that starts first was begun first. -/
private theorem countP_resolve_lt_iff {s : Suppressions}
    (hs : ∀ m ∈ s.complaints, m.severity = .error) (rule : String) (messages : List Message) :
    messages.countP (warnsOfOverlap rule) < (s.resolve messages).countP (warnsOfOverlap rule) ↔
      ∃ i j, i < j ∧ Crosses s.entries rule i j := by
  have hcomplaints : s.complaints.countP (warnsOfOverlap rule) = 0 := by
    rw [List.countP_eq_zero]
    intro m hm
    simp [warnsOfOverlap, hs m hm]
  rw [← any_warnsOfOverlap_overlaps, ← List.countP_pos_iff, resolve_eq]
  simp only [List.countP_append, countP_filter_taker?, hcomplaints, countP_reports]
  omega

end Suppressions

/-- For every source, resolving adds a warning about overlapping directives for a rule exactly if
two suppressions of the rule cross and the one that starts first was also written first.  In a
source that can be parsed, two suppressions cross the other way round only if the one that was
written first is about the next element. -/
theorem overlap_warned_iff (v : Vocabulary) (configured : List String) (enabled : NameMap Severity)
    (source rule : String) (messages : List Message) :
    let s := (observeParsing v Suppressions.observe (.start configured enabled) source).2
    (messages.countP (Suppressions.warnsOfOverlap rule) <
        (s.resolve messages).countP (Suppressions.warnsOfOverlap rule) ↔
      ∃ i j, i < j ∧ Suppressions.Crosses s.entries rule i j) ∧
    ((tokenize source).failure = none → ∀ i j, i < j → Suppressions.Crosses s.entries rule j i →
      ∃ sup, s.entries[i]? = some sup ∧ sup.action = .disableNext) := by
  intro s
  constructor
  · obtain ⟨ms, hms⟩ := observeParsing_snd v Suppressions.observe (.start configured enabled) source
    apply Suppressions.countP_resolve_lt_iff
    show ∀ m ∈ (observeParsing v Suppressions.observe (.start configured enabled)
      source).2.complaints, _
    rw [hms]
    exact Suppressions.severity_of_mem_complaints (by simp [Suppressions.start]) ms
  · rintro hscan i j hlt ⟨b, a, ⟨later, hj, -, hb⟩, ⟨first, hi, -, ha⟩, hstart, -, -⟩
    obtain ⟨d, es, s', -, hobserve, -, -, hagree⟩ :=
      Suppressions.agree_of_parsing v configured enabled hscan
    obtain rfl : s = s' := congrArg Prod.snd hobserve
    by_cases haction : first.action = .disableNext
    · exact ⟨first, hi, haction⟩
    · -- what was written first starts first, against what the crossing says
      obtain ⟨hilen, hi⟩ := List.getElem?_eq_some_iff.mp hi
      obtain ⟨hjlen, hj⟩ := List.getElem?_eq_some_iff.mp hj
      have hfirst := List.pairwise_iff_getElem.mp hagree.startsFirst i j hilen hjlen hlt
      rw [hi, hj] at hfirst
      have hle := hfirst haction a b ha hb
      omega

/-- A block that is left before the directive inside it is ended: the second directive starts inside
the block and goes beyond it, which is warned of. -/
theorem overlap_warned_iff_block :
    let source := "<b><!-- [html-validate-disable-block foo] --> " ++
      "<!-- [html-validate-disable foo] --></b> <!-- [html-validate-enable foo] -->"
    let s := (observeParsing ⟨.empty⟩ Suppressions.observe (.start ["foo"] .empty) source).2
    ((tokenize source).failure = none ∧
      s.entries.map Suppression.coverage? = [some ⟨45, 86⟩, some ⟨82, 87⟩]) ∧
    (List.countP (Suppressions.warnsOfOverlap "foo") [] <
        (s.resolve []).countP (Suppressions.warnsOfOverlap "foo") ↔
      ∃ i j, i < j ∧ Suppressions.Crosses s.entries "foo" i j) ∧
    ((tokenize source).failure = none → ∀ i j, i < j → Suppressions.Crosses s.entries "foo" j i →
      ∃ sup, s.entries[i]? = some sup ∧ sup.action = .disableNext) := by
  intro source s
  exact ⟨by decide +kernel, overlap_warned_iff ⟨.empty⟩ ["foo"] .empty source "foo" []⟩

/-- A directive for the next element before one that is ended inside this element: the two cross,
and there is no warning. -/
theorem crossing_next_element_not_warned :
    let source :=
      "<!-- [html-validate-disable-next foo] --><!-- [html-validate-disable foo] --> " ++
      "<p><!-- [html-validate-enable foo] --></p>"
    let s := (observeParsing ⟨.empty⟩ Suppressions.observe (.start ["foo"] .empty) source).2
    Suppressions.Crosses s.entries "foo" 1 0 ∧
      (s.resolve []).countP (Suppressions.warnsOfOverlap "foo") = 0 := by
  intro source s
  have hs : (s.entries.map fun sup => (sup.rule, sup.coverage?)) =
        [(some "foo", some ⟨78, 120⟩), (some "foo", some ⟨77, 81⟩)] ∧
      (s.resolve []).countP (Suppressions.warnsOfOverlap "foo") = 0 := by decide +kernel
  have hat : ∀ i range,
      (s.entries.map fun sup => (sup.rule, sup.coverage?))[i]? = some (some "foo", some range) →
        Suppressions.CoversAt s.entries "foo" i range := by
    intro i range h
    rw [List.getElem?_map, Option.map_eq_some_iff] at h
    obtain ⟨sup, hsup, heq⟩ := h
    exact ⟨sup, hsup, congrArg Prod.fst heq, congrArg Prod.snd heq⟩
  rw [hs.1] at hat
  exact ⟨⟨⟨77, 81⟩, ⟨78, 120⟩, hat 1 _ rfl, hat 0 _ rfl, by decide⟩, hs.2⟩

end HtmlLint
