import HtmlLint.Proofs.Suppression.Attribution
import HtmlLint.Proofs.Suppression.Coverage

/-!
# Suppressions that are used and reported

A suppression that takes nothing away is reported, and such a report is a message like others: a
suppression of `no-unused-disable` may take it away.  `Suppressions.review` goes through the
suppressions in the order in which they are reported and keeps who takes each report away; the
reports that are seen are those without a taker (`reportUnused_eq`).

Reports on suppressions of other rules are made first, so that whoever takes one of them away is
marked in time.  Suppressions of `no-unused-disable` itself are gone through from first to last.  No
suppression takes away the report on itself or on an earlier one, since it covers nothing before its
directive ends; but an earlier one may take away the report on a later one after it has been
reported itself.  This is the only way in which a suppression is both used and reported:
`used_and_reported_iff`.
-/

namespace HtmlLint

namespace Suppressions

/-! ## Going through suppressions -/

/-- The place of the suppression that takes away the report on the suppression at a place. -/
def reportTaker? (entries : List Suppression) (i : Nat) : Option Nat :=
  entries[i]?.bind fun s => innermost? entries noUnusedDisable s.location.offset

/-- The places among the given ones that a report is made on, each with the place of the suppression
that takes the report away, if one does. -/
def review (entries : List Suppression) : List Nat → List (Nat × Option Nat)
  | [] => []
  | i :: rest =>
    match entries[i]? with
    | none => review entries rest
    | some s =>
      if s.matched then review entries rest
      else
        match innermost? entries noUnusedDisable s.location.offset with
        | some j => (i, some j) :: review (mark entries j) rest
        | none => (i, none) :: review entries rest

/-- The report that is seen of what a review found at a place. -/
def seenReport? (severity : Severity) (entries : List Suppression) (found : Nat × Option Nat) :
    Option Message :=
  if found.2.isNone then entries[found.1]?.map (unusedReport severity) else none

/-- Where reports are seen does not depend on marks. -/
private theorem seenReport?_markAll (severity : Severity) (entries : List Suppression)
    (places : List Nat) :
    seenReport? severity (markAll entries places) = seenReport? severity entries := by
  funext found
  simp only [seenReport?, getElem?_markAll, Option.map_map]
  rfl

/-- The reports are those of a review that nothing takes away. -/
theorem reportUnused_eq (severity : Severity) (entries : List Suppression) (places : List Nat) :
    reportUnused severity entries places =
      (review entries places).filterMap (seenReport? severity entries) := by
  fun_induction review entries places with
  | case1 entries => rfl
  | case2 entries i places hs ih => simp only [reportUnused, hs, ih]
  | case3 entries i places s hs hmatched ih => simp only [reportUnused, hs, hmatched, if_true, ih]
  | case4 entries i places s hs hmatched j hj ih =>
    have hsame := seenReport?_markAll severity entries [j]
    rw [show markAll entries [j] = mark entries j from rfl] at hsame
    simp only [reportUnused, hs, hmatched, Bool.false_eq_true, if_false, hj, ih, hsame]
    rfl
  | case5 entries i places s hs hmatched hj ih =>
    simp only [reportUnused, hs, hmatched, Bool.false_eq_true, if_false, hj, ih]
    simp [seenReport?, hs]

/-- Going through places one part after the other: the second part sees the marks of the first. -/
private theorem review_append (entries : List Suppression) (places more : List Nat) :
    review entries (places ++ more) = review entries places ++
      review (markAll entries ((review entries places).filterMap Prod.snd)) more := by
  fun_induction review entries places with
  | case1 entries => rfl
  | case2 entries i places hs ih => simp only [List.cons_append, review, hs, ih]
  | case3 entries i places s hs hmatched ih =>
    simp only [List.cons_append, review, hs, hmatched, if_true, ih]
  | case4 entries i places s hs hmatched j hj ih =>
    simp only [List.cons_append, review, hs, hmatched, Bool.false_eq_true, if_false, hj, ih]
    rfl
  | case5 entries i places s hs hmatched hj ih =>
    simp only [List.cons_append, review, hs, hmatched, Bool.false_eq_true, if_false, hj, ih]
    rfl

/-- Where no report is taken away by a suppression that comes later, the review finds every place
that is not marked before, with its taker. -/
private theorem review_markAll {entries : List Suppression}
    (hentries : ∀ s ∈ entries, s.matched = false) {places : List Nat}
    (hplaces : ∀ i ∈ places, i < entries.length)
    (hlater : places.Pairwise fun i k => reportTaker? entries i ≠ some k) (marked : List Nat) :
    review (markAll entries marked) places =
      (places.filter (· ∉ marked)).map fun i => (i, reportTaker? entries i) := by
  induction places generalizing marked with
  | nil => rfl
  | cons i places ih =>
    obtain ⟨hi, hlater'⟩ := List.pairwise_cons.mp hlater
    have hplaces' : ∀ k ∈ places, k < entries.length :=
      fun k hk => hplaces k (List.mem_cons_of_mem _ hk)
    obtain ⟨s, hs⟩ : ∃ s, entries[i]? = some s :=
      ⟨_, List.getElem?_eq_getElem (hplaces i (List.mem_cons_self ..))⟩
    have hunmatched : s.matched = false := hentries s (List.mem_of_getElem? hs)
    have htaker : innermost? entries noUnusedDisable s.location.offset =
        reportTaker? entries i := by
      rw [reportTaker?, hs]
      rfl
    rw [review, getElem?_markAll, hs]
    simp only [Option.map_some, hunmatched, Bool.false_or, innermost?_markAll, htaker]
    by_cases hmarked : i ∈ marked
    · simp only [hmarked, decide_true, if_true, List.filter_cons, not_true_eq_false, decide_false,
        Bool.false_eq_true, if_false]
      exact ih hplaces' hlater' marked
    · simp only [hmarked, decide_false, Bool.false_eq_true, if_false, List.filter_cons,
        not_false_eq_true, decide_true, if_true, List.map_cons]
      cases hj : reportTaker? entries i with
      | none => rw [ih hplaces' hlater' marked]
      | some j =>
        -- the new mark is set at none of the places that are left
        have hmark : mark (markAll entries marked) j = markAll entries (marked ++ [j]) :=
          (markAll_append entries marked [j]).symm
        have hfilter : places.filter (· ∉ marked ++ [j]) = places.filter (· ∉ marked) := by
          refine List.filter_congr fun k hk => ?_
          have hne : k ≠ j := fun hkj => hi k hk (hj.trans (congrArg some hkj.symm))
          simp [hne]
        show (i, some j) :: review (mark (markAll entries marked) j) places = _
        rw [hmark, ih hplaces' hlater' (marked ++ [j]), hfilter]

/-! ## The order of the review -/

/-- The places of the suppressions with a property, in ascending order. -/
def placesOf (q : Suppression → Bool) (entries : List Suppression) : List Nat :=
  (entries.zipIdx.filter fun e => q e.1).map Prod.snd

/-- The places of suppressions of a sort. -/
private theorem mem_placesOf {q : Suppression → Bool} {entries : List Suppression} {i : Nat} :
    i ∈ placesOf q entries ↔ ∃ s, entries[i]? = some s ∧ q s = true := by
  simp only [placesOf, List.mem_map, List.mem_filter]
  constructor
  · rintro ⟨⟨s, k⟩, ⟨hmem, hq⟩, rfl⟩
    exact ⟨s, List.mk_mem_zipIdx_iff_getElem?.mp hmem, hq⟩
  · rintro ⟨s, hs, hq⟩
    exact ⟨(s, i), ⟨List.mk_mem_zipIdx_iff_getElem?.mpr hs, hq⟩, rfl⟩

/-- They come in order. -/
private theorem pairwise_placesOf (q : Suppression → Bool) (entries : List Suppression) :
    (placesOf q entries).Pairwise (· < ·) := by
  have hsub : (placesOf q entries).Sublist (List.range' 0 entries.length) := by
    rw [← List.zipIdx_map_snd 0 entries]
    exact List.filter_sublist.map _
  exact (List.pairwise_lt_range' 1).sublist hsub

/-- The suppression took nothing away, and its rule runs. -/
def isUnused (enabled : NameMap Severity) (s : Suppression) : Bool :=
  !s.matched && s.rule.any enabled.contains

/-- The suppression is one of `no-unused-disable`. -/
def isOfReports (s : Suppression) : Bool :=
  s.rule == some noUnusedDisable

/-- The places of unused suppressions: first those of other rules, then those of the reports
themselves. -/
private theorem unusedPlaces_eq (enabled : NameMap Severity) (entries : List Suppression) :
    unusedPlaces enabled entries =
      placesOf (fun s => !isOfReports s && isUnused enabled s) entries ++
        placesOf (fun s => isOfReports s && isUnused enabled s) entries := by
  simp only [unusedPlaces, List.filter_filter, List.map_append]
  rfl

/-! ## What is used and what is reported -/

/-- What is found when the suppressions are gone through after the messages have been taken away. -/
def reviewed (s : Suppressions) (messages : List Message) : List (Nat × Option Nat) :=
  let entries := (suppress s.entries messages).1
  review entries (unusedPlaces s.enabled entries)

/-- The reports that are seen, if the rule for them runs. -/
def reports (s : Suppressions) (messages : List Message) : List Message :=
  match s.enabled.get? noUnusedDisable with
  | none => []
  | some severity => (s.reviewed messages).filterMap (seenReport? severity s.entries)

/-- The suppression at a place takes away a message, or the report on a suppression. -/
def IsUsed (s : Suppressions) (messages : List Message) (i : Nat) : Prop :=
  (∃ m ∈ messages, taker? s.entries m = some i) ∨
    (s.enabled.contains noUnusedDisable = true ∧ ∃ k, (k, some i) ∈ s.reviewed messages)

/-- The suppression at a place is reported, and the report is seen. -/
def IsReported (s : Suppressions) (messages : List Message) (i : Nat) : Prop :=
  s.enabled.contains noUnusedDisable = true ∧ (i, none) ∈ s.reviewed messages

/-- The suppression at a place is one of a rule that runs, and takes no message away. -/
structure IsIdle (s : Suppressions) (messages : List Message) (rule : String) (i : Nat) : Prop where
  names : ∃ sup, s.entries[i]? = some sup ∧ sup.rule = some rule
  runs : s.enabled.contains rule = true
  takes_none : ∀ m ∈ messages, taker? s.entries m ≠ some i

/-- The suppression at a place is one of `no-unused-disable`, and takes away neither a message nor
the report on a suppression of another rule. -/
structure IsSpare (s : Suppressions) (messages : List Message) (i : Nat) : Prop where
  idle : s.IsIdle messages noUnusedDisable i
  takes_no_report : ∀ k rule, rule ≠ noUnusedDisable → s.IsIdle messages rule k →
    reportTaker? s.entries k ≠ some i

/-- The suppression at a place is spare, nothing takes the report on it away, and it takes away the
report on a later one that is spare as well. -/
def IsOverlooked (s : Suppressions) (messages : List Message) (i : Nat) : Prop :=
  s.IsSpare messages i ∧ reportTaker? s.entries i = none ∧
    ∃ k, i < k ∧ s.IsSpare messages k ∧ reportTaker? s.entries k = some i

/-- The suppressions after the messages have been taken away. -/
def afterMessages (s : Suppressions) (messages : List Message) : List Suppression :=
  markAll s.entries (messages.filterMap (taker? s.entries))

/-- The places of the unused suppressions of other rules, which come first. -/
def otherPlaces (s : Suppressions) (messages : List Message) : List Nat :=
  placesOf (fun sup => !isOfReports sup && isUnused s.enabled sup) (s.afterMessages messages)

/-- The places of the unused suppressions of `no-unused-disable`, which come last. -/
def lastPlaces (s : Suppressions) (messages : List Message) : List Nat :=
  placesOf (fun sup => isOfReports sup && isUnused s.enabled sup) (s.afterMessages messages)

/-- What is reported after all messages have been taken. -/
private theorem unused_eq_reports (s : Suppressions) (messages : List Message) :
    unused s.enabled (s.afterMessages messages) = s.reports messages := by
  unfold unused reports
  cases s.enabled.get? noUnusedDisable with
  | none => rfl
  | some severity =>
    show reportUnused severity (s.afterMessages messages) _ = _
    rw [reportUnused_eq, reviewed, suppress_eq, afterMessages, seenReport?_markAll]

/-- What remains of the messages comes first, unchanged, and then what is said about the
directives. -/
theorem resolve_eq (s : Suppressions) (messages : List Message) :
    s.resolve messages = messages.filter (fun m => (taker? s.entries m).isNone) ++ s.complaints ++
      overlaps s.entries ++ s.reports messages := by
  rw [← unused_eq_reports, ← overlaps_markAll s.entries (messages.filterMap (taker? s.entries)),
    resolve, suppress_eq, afterMessages]

section Review

variable {s : Suppressions} {messages : List Message} {i : Nat}

/-- The places of idle suppressions are those that are not marked and whose rule runs. -/
private theorem mem_placesOf_unused (hs : ∀ sup ∈ s.entries, sup.matched = false)
    (p : Suppression → Bool) (hp : ∀ sup matched, p { sup with matched := matched } = p sup) :
    i ∈ placesOf (fun sup => p sup && isUnused s.enabled sup) (s.afterMessages messages) ↔
      ∃ sup rule, s.entries[i]? = some sup ∧ p sup = true ∧ sup.rule = some rule ∧
        s.IsIdle messages rule i := by
  -- the marks are all that the messages change, and `p` does not look at them
  rw [mem_placesOf]
  simp only [afterMessages, getElem?_markAll, Option.map_eq_some_iff, Bool.and_eq_true]
  constructor
  · rintro ⟨_, ⟨sup, hsup, rfl⟩, hpsup, hunused⟩
    rw [hp] at hpsup
    simp only [isUnused, Bool.and_eq_true, Bool.not_eq_true', Bool.or_eq_false_iff,
      decide_eq_false_iff_not,
      List.mem_filterMap, not_exists, not_and, Option.any_eq_true] at hunused
    obtain ⟨⟨-, hnone⟩, rule, hrule, hruns⟩ := hunused
    exact ⟨sup, rule, hsup, hpsup, hrule, ⟨sup, hsup, hrule⟩, hruns, hnone⟩
  · rintro ⟨sup, rule, hsup, hpsup, hrule, hidle⟩
    refine ⟨_, ⟨sup, hsup, rfl⟩, by rw [hp]; exact hpsup, ?_⟩
    simp only [isUnused, Bool.and_eq_true, Bool.not_eq_true', Bool.or_eq_false_iff,
      decide_eq_false_iff_not, List.mem_filterMap, not_exists, not_and, Option.any_eq_true]
    exact ⟨⟨hs sup (List.mem_of_getElem? hsup), hidle.takes_none⟩, rule, hrule, hidle.runs⟩

/-- Who takes a report away is a suppression of `no-unused-disable`, if it names a rule. -/
private theorem IsIdle.rule_of_reportTaker? {k : Nat} {rule : String} (h : s.IsIdle messages rule i)
    (htaker : reportTaker? s.entries k = some i) : rule = noUnusedDisable := by
  obtain ⟨sup, hsup, hrule⟩ := h.names
  obtain ⟨reported, -, hinner⟩ := Option.bind_eq_some_iff.mp htaker
  obtain ⟨sup', hsup', happlies, -⟩ := of_innermost? hinner
  rw [hsup] at hsup'
  cases hsup'
  simpa [Suppression.appliesTo, hrule] using happlies

/-- No suppression takes away the report on an earlier one. -/
private theorem reportTaker?_ne_of_lt (hnamed : s.entries.Pairwise Suppression.NamedBefore)
    {k : Nat} {rule : String} (h : s.IsIdle messages rule i) (hlt : i < k) :
    reportTaker? s.entries i ≠ some k := by
  intro htaker
  obtain ⟨sup, hsup, hrule⟩ := h.names
  obtain ⟨sup', hsup', hinner⟩ := Option.bind_eq_some_iff.mp htaker
  rw [hsup] at hsup'
  cases hsup'
  obtain ⟨later, hlater, -, hcovers⟩ := of_innermost? hinner
  obtain ⟨range, hrange, hcontains⟩ := (Option.any_eq_true _ _).mp hcovers
  obtain ⟨hi, rfl⟩ := List.getElem?_eq_some_iff.mp hsup
  obtain ⟨hk, rfl⟩ := List.getElem?_eq_some_iff.mp hlater
  have hbefore :=
    List.pairwise_iff_getElem.mp hnamed i k hi hk hlt (by rw [hrule]; rfl) range hrange
  simp only [ByteRange.contains, Bool.and_eq_true, decide_eq_true_eq] at hcontains
  omega

/-- The first places are those of idle suppressions of other rules. -/
private theorem mem_otherPlaces (hs : ∀ sup ∈ s.entries, sup.matched = false) :
    i ∈ s.otherPlaces messages ↔ ∃ rule, rule ≠ noUnusedDisable ∧ s.IsIdle messages rule i := by
  rw [otherPlaces, mem_placesOf_unused hs (!isOfReports ·) fun _ _ => rfl]
  constructor
  · rintro ⟨sup, rule, -, hother, hrule, hidle⟩
    exact ⟨rule, by simpa [isOfReports, hrule] using hother, hidle⟩
  · rintro ⟨rule, hne, hidle⟩
    obtain ⟨sup, hsup, hrule⟩ := hidle.names
    exact ⟨sup, rule, hsup, by simpa [isOfReports, hrule] using hne, hrule, hidle⟩

/-- The last places are those of idle suppressions of the reports themselves. -/
private theorem mem_lastPlaces (hs : ∀ sup ∈ s.entries, sup.matched = false) :
    i ∈ s.lastPlaces messages ↔ s.IsIdle messages noUnusedDisable i := by
  rw [lastPlaces, mem_placesOf_unused hs isOfReports fun _ _ => rfl]
  constructor
  · rintro ⟨sup, rule, -, hlast, hrule, hidle⟩
    obtain rfl : rule = noUnusedDisable := by simpa [isOfReports, hrule] using hlast
    exact hidle
  · intro hidle
    obtain ⟨sup, hsup, hrule⟩ := hidle.names
    exact ⟨sup, noUnusedDisable, hsup, by simp [isOfReports, hrule], hrule, hidle⟩

/-- An idle suppression is there. -/
private theorem IsIdle.lt_length {rule : String} (h : s.IsIdle messages rule i) :
    i < s.entries.length := by
  obtain ⟨sup, hsup, -⟩ := h.names
  exact (List.getElem?_eq_some_iff.mp hsup).1

/-- An idle suppression takes no message. -/
private theorem IsIdle.not_mem_takers {rule : String} (h : s.IsIdle messages rule i) :
    i ∉ messages.filterMap (taker? s.entries) := by
  intro hmem
  obtain ⟨m, hm, htaker⟩ := List.mem_filterMap.mp hmem
  exact h.takes_none m hm htaker

/-- No suppression of another rule takes a report away. -/
private theorem pairwise_otherPlaces (hs : ∀ sup ∈ s.entries, sup.matched = false) :
    (s.otherPlaces messages).Pairwise fun i k => reportTaker? s.entries i ≠ some k := by
  refine List.pairwise_of_forall_mem_list fun i _ k hk htaker => ?_
  obtain ⟨rule, hne, hidle⟩ := (mem_otherPlaces hs).mp hk
  exact hne (hidle.rule_of_reportTaker? htaker)

/-- No suppression of `no-unused-disable` takes away the report on an earlier one. -/
private theorem pairwise_lastPlaces (hs : ∀ sup ∈ s.entries, sup.matched = false)
    (hnamed : s.entries.Pairwise Suppression.NamedBefore) :
    (s.lastPlaces messages).Pairwise fun i k => reportTaker? s.entries i ≠ some k := by
  refine (pairwise_placesOf _ _).imp_of_mem fun {i k} hi _ hlt => ?_
  exact reportTaker?_ne_of_lt hnamed ((mem_lastPlaces hs).mp hi) hlt

/-- The review finds every unused suppression of another rule, and then those of `no-unused-disable`
that have taken no report away so far. -/
private theorem reviewed_eq (hs : ∀ sup ∈ s.entries, sup.matched = false)
    (hnamed : s.entries.Pairwise Suppression.NamedBefore) :
    s.reviewed messages =
      ((s.otherPlaces messages) ++ (s.lastPlaces messages).filter
        (· ∉ (s.otherPlaces messages).filterMap (reportTaker? s.entries))).map
          fun i => (i, reportTaker? s.entries i) := by
  have hother : ∀ i ∈ s.otherPlaces messages, ∃ rule, s.IsIdle messages rule i := fun i hi =>
    ((mem_otherPlaces hs).mp hi).imp fun _ h => h.2
  have hlast : ∀ i ∈ s.lastPlaces messages, s.IsIdle messages noUnusedDisable i := fun i hi =>
    (mem_lastPlaces hs).mp hi
  -- the other rules come first, and none of their places is marked by then
  have hfirst := review_markAll hs (fun i hi => (hother i hi).elim fun _ h => h.lt_length)
    (pairwise_otherPlaces hs) (messages.filterMap (taker? s.entries))
  have hunmarked : (s.otherPlaces messages).filter (· ∉ messages.filterMap (taker? s.entries)) =
      s.otherPlaces messages := by
    refine List.filter_eq_self.mpr fun i hi => ?_
    obtain ⟨rule, hidle⟩ := hother i hi
    simpa using hidle.not_mem_takers
  rw [hunmarked] at hfirst
  -- then `no-unused-disable`, where only the reports of the first part have left marks
  have hsecond :=
    review_markAll hs (fun i hi => (hlast i hi).lt_length) (pairwise_lastPlaces hs hnamed)
    (messages.filterMap (taker? s.entries) ++ (s.otherPlaces messages).filterMap
      (reportTaker? s.entries))
  have hfilter : (s.lastPlaces messages).filter (· ∉ messages.filterMap (taker? s.entries) ++
        (s.otherPlaces messages).filterMap (reportTaker? s.entries)) =
      (s.lastPlaces messages).filter
        (· ∉ (s.otherPlaces messages).filterMap (reportTaker? s.entries)) := by
    refine List.filter_congr fun i hi => ?_
    simp only [List.mem_append, (hlast i hi).not_mem_takers, false_or]
  have hmarks :
      ((s.otherPlaces messages).map fun i => (i, reportTaker? s.entries i)).filterMap Prod.snd =
      (s.otherPlaces messages).filterMap (reportTaker? s.entries) := by
    rw [List.filterMap_map]
    rfl
  have hplaces :
      unusedPlaces s.enabled (markAll s.entries (messages.filterMap (taker? s.entries))) =
      s.otherPlaces messages ++ s.lastPlaces messages := unusedPlaces_eq ..
  simp only [reviewed, suppress_eq]
  rw [hplaces, review_append, hfirst, hmarks, ← markAll_append, hsecond, hfilter, List.map_append]

/-- A report is made on every idle suppression of another rule and on every spare one, and the
review finds who takes it away. -/
private theorem mem_reviewed_iff (hs : ∀ sup ∈ s.entries, sup.matched = false)
    (hnamed : s.entries.Pairwise Suppression.NamedBefore) {taker : Option Nat} :
    (i, taker) ∈ s.reviewed messages ↔ taker = reportTaker? s.entries i ∧
      ((∃ rule, rule ≠ noUnusedDisable ∧ s.IsIdle messages rule i) ∨ s.IsSpare messages i) := by
  -- those for the rule about unused ones come last, without those taken by a report before
  have hspare : (i ∈ s.lastPlaces messages ∧
      i ∉ (s.otherPlaces messages).filterMap (reportTaker? s.entries)) ↔ s.IsSpare messages i := by
    rw [mem_lastPlaces hs, List.mem_filterMap]
    constructor
    · rintro ⟨hidle, hnone⟩
      exact ⟨hidle,
        fun k rule hne hk htaker => hnone ⟨k, (mem_otherPlaces hs).mpr ⟨rule, hne, hk⟩, htaker⟩⟩
    · rintro ⟨hidle, hnone⟩
      refine ⟨hidle, ?_⟩
      rintro ⟨k, hk, htaker⟩
      obtain ⟨rule, hne, hk⟩ := (mem_otherPlaces hs).mp hk
      exact hnone k rule hne hk htaker
  rw [reviewed_eq hs hnamed, ← mem_otherPlaces hs, ← hspare]
  simp only [List.mem_map, List.mem_append, List.mem_filter, decide_eq_true_eq, Prod.mk.injEq]
  constructor
  · rintro ⟨_, hmem, rfl, rfl⟩
    exact ⟨rfl, hmem⟩
  · rintro ⟨rfl, hmem⟩
    exact ⟨i, hmem, rfl, rfl⟩

/-- What it comes to that the review goes from first to last. -/
private theorem isUsed_and_isReported_iff (hs : ∀ sup ∈ s.entries, sup.matched = false)
    (hnamed : s.entries.Pairwise Suppression.NamedBefore) :
    s.IsUsed messages i ∧ s.IsReported messages i ↔ s.IsOverlooked messages i := by
  constructor
  · rintro ⟨hused, hruns, hreported⟩
    obtain ⟨hnone, hreported⟩ := (mem_reviewed_iff hs hnamed).mp hreported
    -- a message marks its taker before the review starts
    have hnoMessage : ∀ m ∈ messages, taker? s.entries m ≠ some i := by
      obtain ⟨rule, -, hidle⟩ | hspare := hreported
      · exact hidle.takes_none
      · exact hspare.idle.takes_none
    obtain ⟨m, hm, htaker⟩ | ⟨-, k, hk⟩ := hused
    · exact absurd htaker (hnoMessage m hm)
    obtain ⟨htaker, hk⟩ := (mem_reviewed_iff hs hnamed).mp hk
    -- so it takes a report away, and is one of `no-unused-disable`
    have hspare : s.IsSpare messages i := by
      refine hreported.resolve_left ?_
      rintro ⟨rule, hne, hidle⟩
      exact hne (hidle.rule_of_reportTaker? htaker.symm)
    have hspare' : s.IsSpare messages k := by
      refine hk.resolve_left ?_
      rintro ⟨rule, hne, hidle⟩
      exact hspare.takes_no_report k rule hne hidle htaker.symm
    refine ⟨hspare, hnone.symm, k, ?_, hspare', htaker.symm⟩
    have hle : ¬ k < i := fun hlt => reportTaker?_ne_of_lt hnamed hspare'.idle hlt htaker.symm
    have hne : k ≠ i := by
      rintro rfl
      rw [← hnone] at htaker
      cases htaker
    omega
  · rintro ⟨hspare, hnone, k, -, hspare', htaker⟩
    exact ⟨.inr ⟨hspare.idle.runs, k, (mem_reviewed_iff hs hnamed).mpr ⟨htaker.symm, .inr hspare'⟩⟩,
      hspare.idle.runs, (mem_reviewed_iff hs hnamed).mpr ⟨hnone.symm, .inr hspare⟩⟩

end Review

end Suppressions

/-- What remains of the messages of a source and what is said about its directives.  A suppression
takes away a message or a report and is reported all the same exactly if it is overlooked: it is one
of `no-unused-disable`, and all that it takes away is the report on a later suppression of
`no-unused-disable`. -/
theorem used_and_reported_iff (v : Vocabulary) (configured : List String)
    (enabled : NameMap Severity) {source : String} (h : (tokenize source).failure = none) :
    ∃ d s, observeParsing v Suppressions.observe (.start configured enabled) source = (.ok d, s) ∧
      ∀ messages,
        s.resolve messages =
          messages.filter (fun m => (Suppressions.taker? s.entries m).isNone) ++ s.complaints ++
            Suppressions.overlaps s.entries ++ s.reports messages ∧
        ∀ i, s.IsUsed messages i ∧ s.IsReported messages i ↔ s.IsOverlooked messages i := by
  obtain ⟨d, es, s, -, hobserve, -, -, hagree⟩ :=
    Suppressions.agree_of_parsing v configured enabled h
  refine ⟨d, s, hobserve, fun messages => ⟨s.resolve_eq messages, fun i => ?_⟩⟩
  exact Suppressions.isUsed_and_isReported_iff hagree.unmatched hagree.namedBefore

/-- A directive that disables `no-unused-disable` before one whose report it takes away: it is
marked in time and not overlooked. -/
theorem used_and_reported_iff_other_rule :
    let source := "<!-- [html-validate-disable no-unused-disable] -->" ++
      "<!-- [html-validate-disable-next deprecated] --><p></p>"
    let start := Suppressions.start ["deprecated", "no-unused-disable"]
      (.ofList [("deprecated", .error), ("no-unused-disable", .error)])
    (tokenize source).failure = none ∧
    (observeParsing ⟨.empty⟩ Suppressions.observe start source).2.reviewed [] = [(1, some 0)] ∧
    ∃ d s, observeParsing ⟨.empty⟩ Suppressions.observe start source = (.ok d, s) ∧
      ∀ messages,
        s.resolve messages =
          messages.filter (fun m => (Suppressions.taker? s.entries m).isNone) ++ s.complaints ++
            Suppressions.overlaps s.entries ++ s.reports messages ∧
        ∀ i, s.IsUsed messages i ∧ s.IsReported messages i ↔ s.IsOverlooked messages i := by
  intro source start
  have hscan : (tokenize source).failure = none := by decide +kernel
  exact ⟨hscan, by decide +kernel, used_and_reported_iff ⟨.empty⟩ _ _ hscan⟩

/-- Two directives that disable `no-unused-disable`: the first one takes away the report on the
second, and is reported. -/
theorem first_of_two_used_and_reported :
    let source := "<!-- [html-validate-disable no-unused-disable] -->" ++
      "<!-- [html-validate-disable no-unused-disable] --><p></p>"
    let s := (observeParsing ⟨.empty⟩ Suppressions.observe
      (.start ["no-unused-disable"] (.ofList [("no-unused-disable", .error)])) source).2
    s.IsUsed [] 0 ∧ s.IsReported [] 0 ∧
      (s.resolve []).map (fun m => (m.text, m.location.offset)) =
        [("\"no-unused-disable\" rule is disabled but no error was reported", 28)] := by
  intro source s
  have hreviewed : s.reviewed [] = [(0, none), (1, some 0)] := by decide +kernel
  have hruns : s.enabled.contains noUnusedDisable = true := by decide +kernel
  exact ⟨.inr ⟨hruns, 1, by simp [hreviewed]⟩, ⟨hruns, by simp [hreviewed]⟩, by decide +kernel⟩

end HtmlLint
