import HtmlLint.Proofs.Suppression.Unused

/-!
# Every message is seen or has one taker

Resolving goes through the messages and looks for the innermost suppression of each.  `IsInnermost`
says which one that is without going through anything: of the suppressions that reach the message it
starts latest, of those that start there it stops first, and of those with the same bytes it was
begun last.  The fold that chooses among suppressions finds exactly this one (`taker?_eq_some_iff`).

So a message is seen or is put down to one suppression, which is marked for it; what is added to the
messages is about directives.  `resolve_attributes` says all of this of whatever has been observed.
-/

namespace HtmlLint

/-- The suppression is about the rule of a message and covers the place of it. -/
def Suppression.reaches (s : Suppression) (m : Message) : Bool :=
  m.rule.any s.appliesTo && s.covers m.location.offset

namespace Suppressions

/-- The suppression at a place reaches a message and covers these bytes. -/
def ReachesFrom (entries : List Suppression) (m : Message) (i : Nat) (range : ByteRange) : Prop :=
  ∃ s, entries[i]? = some s ∧ s.reaches m = true ∧ s.coverage? = some range

/-- The suppression at place `j`, which covers `b`, is at least as far inside as the one at place
`i`, which covers `a`: it starts later, or starts there and stops earlier, or covers the same and
was begun no earlier. -/
def IsFurtherIn (i : Nat) (a : ByteRange) (j : Nat) (b : ByteRange) : Prop :=
  a.start < b.start ∨ a.start = b.start ∧ (b.stop < a.stop ∨ b.stop = a.stop ∧ i ≤ j)

/-- Of the suppressions that reach a message, the one at this place is furthest inside. -/
def IsInnermost (entries : List Suppression) (m : Message) (j : Nat) : Prop :=
  ∃ b, ReachesFrom entries m j b ∧ ∀ i a, ReachesFrom entries m i a → IsFurtherIn i a j b

/-! ## Choosing the innermost -/

section Choice

variable {reaching : List (Nat × ByteRange)} {best : Option (Nat × ByteRange)}
  {found : Nat × ByteRange}

/-- Being further in carries over. -/
private theorem IsFurtherIn.trans {i j k : Nat} {a b c : ByteRange} (h : IsFurtherIn i a j b)
    (h' : IsFurtherIn j b k c) : IsFurtherIn i a k c := by
  unfold IsFurtherIn at *
  omega

/-- Every suppression is as far in as itself. -/
private theorem IsFurtherIn.refl (i : Nat) (a : ByteRange) : IsFurtherIn i a i a := by
  unfold IsFurtherIn
  omega

/-- Where one suppression yields to another, the other one is further inside; otherwise it is
itself. -/
private theorem yieldsTo_iff {i j : Nat} {a b : ByteRange} (hlt : i < j) :
    a.yieldsTo b = true ↔ IsFurtherIn i a j b := by
  simp only [ByteRange.yieldsTo, IsFurtherIn, Bool.or_eq_true, Bool.and_eq_true, decide_eq_true_eq,
    beq_iff_eq]
  omega

/-- One step of the choice: what was best before and what is found now both have the new best one
inside. -/
private theorem inner_eq_some (hbest : ∀ b, best = some b → b.1 < found.1) :
    ∃ b, inner best found = some b ∧ IsFurtherIn found.1 found.2 b.1 b.2 ∧
      ∀ old, best = some old → IsFurtherIn old.1 old.2 b.1 b.2 := by
  cases hb : best with
  | none => exact ⟨found, rfl, .refl _ _, by simp⟩
  | some b =>
    have hlt := hbest b hb
    by_cases hyields : b.2.yieldsTo found.2 = true
    · refine ⟨found, by simp [inner, hyields], .refl _ _, ?_⟩
      rintro _ ⟨⟩
      exact (yieldsTo_iff hlt).mp hyields
    · refine ⟨b, by simp [inner, hyields], ?_, ?_⟩
      · -- whichever does not yield is further inside
        rw [yieldsTo_iff hlt] at hyields
        unfold IsFurtherIn at *
        omega
      · rintro _ ⟨⟩
        exact .refl _ _

/-- The whole choice, among suppressions in the order of their places. -/
private theorem foldl_inner_furthest (hsorted : reaching.Pairwise fun x y => x.1 < y.1)
    (hbest : ∀ b, best = some b → ∀ x ∈ reaching, b.1 < x.1)
    (h : reaching.foldl inner best = some found) :
    (∀ x ∈ reaching, IsFurtherIn x.1 x.2 found.1 found.2) ∧
      ∀ b, best = some b → IsFurtherIn b.1 b.2 found.1 found.2 := by
  induction reaching generalizing best with
  | nil =>
    refine ⟨by simp, ?_⟩
    rintro b rfl
    cases h
    exact .refl _ _
  | cons next reaching ih =>
    obtain ⟨hnext, hsorted'⟩ := List.pairwise_cons.mp hsorted
    obtain ⟨b, hb, hnew, hold⟩ := inner_eq_some fun b hb => hbest b hb next (List.mem_cons_self ..)
    rw [List.foldl_cons, hb] at h
    -- the best so far is one of those gone through, so it stands before those that are left
    have hbefore : ∀ c, some b = some c → ∀ x ∈ reaching, c.1 < x.1 := by
      rintro _ ⟨⟩ x hx
      have hchosen : [next].foldl inner best = some b := hb
      obtain hmem | hmem := mem_of_foldl_inner hchosen
      · rw [List.mem_singleton.mp hmem]
        exact hnext x hx
      · exact hbest b hmem x (List.mem_cons_of_mem _ hx)
    obtain ⟨hlater, hbest'⟩ := ih hsorted' hbefore h
    have hb' := hbest' b rfl
    refine ⟨fun x hx => ?_, fun old ho => (hold old ho).trans hb'⟩
    cases List.mem_cons.mp hx with
    | inl hx => rw [hx]; exact hnew.trans hb'
    | inr hx => exact hlater x hx

/-- Something is chosen unless there is nothing to choose from. -/
private theorem foldl_inner_eq_none_iff :
    reaching.foldl inner best = none ↔ reaching = [] ∧ best = none := by
  induction reaching generalizing best with
  | nil => simp
  | cons next reaching ih =>
    rw [List.foldl_cons, ih]
    cases best with
    | none => simp [inner]
    | some b =>
      simp only [inner]
      split <;> simp

end Choice

/-! ## The taker of a message -/

section Taker

variable {entries : List Suppression} {m : Message}

/-- The suppressions of a rule that cover an offset are listed in the order of their places. -/
private theorem pairwise_reaching (entries : List Suppression) (rule : String) (offset : Nat) :
    (reaching entries rule offset).Pairwise fun x y => x.1 < y.1 := by
  have hplaces : (entries.zipIdx.map Prod.snd).Pairwise (· < ·) := by
    rw [List.zipIdx_map_snd]
    exact List.pairwise_lt_range' 1
  unfold reaching
  apply (List.pairwise_map.mp hplaces).filterMap
  intro x y hlt
  simp only [Option.ite_none_right_eq_some, Option.map_eq_some_iff]
  rintro _ ⟨-, a, -, rfl⟩ _ ⟨-, b, -, rfl⟩
  exact hlt

/-- A message without rule is out of reach. -/
private theorem reaches_of_rule_eq_none (hm : m.rule = none) (s : Suppression) :
    s.reaches m = false := by
  simp [Suppression.reaches, hm]

/-- The suppressions that reach a message are those that are gone through. -/
private theorem reachesFrom_iff {rule : String} (hm : m.rule = some rule) {i : Nat}
    {range : ByteRange} :
    ReachesFrom entries m i range ↔ (i, range) ∈ reaching entries rule m.location.offset := by
  rw [mem_reaching_iff]
  simp [ReachesFrom, Suppression.reaches, hm, and_assoc]

/-- The choice that resolving makes is the innermost suppression. -/
theorem taker?_eq_some_iff {j : Nat} : taker? entries m = some j ↔ IsInnermost entries m j := by
  cases hm : m.rule with
  | none =>
    simp only [taker?, hm, Option.bind_none, reduceCtorEq, false_iff]
    rintro ⟨b, ⟨s, -, hreaches, -⟩, -⟩
    rw [reaches_of_rule_eq_none hm] at hreaches
    cases hreaches
  | some rule =>
    have hsorted := pairwise_reaching entries rule m.location.offset
    simp only [taker?, hm, Option.bind_some, innermost?_eq, Option.map_eq_some_iff]
    constructor
    · rintro ⟨⟨j, b⟩, hfound, rfl⟩
      have hmem := (mem_of_foldl_inner hfound).resolve_right (by simp)
      obtain ⟨hfurthest, -⟩ := foldl_inner_furthest hsorted (by simp) hfound
      refine ⟨b, (reachesFrom_iff hm).mpr hmem, fun i a ha => ?_⟩
      exact hfurthest (i, a) ((reachesFrom_iff hm).mp ha)
    · rintro ⟨b, hb, hinnermost⟩
      have hmem := (reachesFrom_iff hm).mp hb
      cases hfound : (reaching entries rule m.location.offset).foldl inner none with
      | none =>
        rw [(foldl_inner_eq_none_iff.mp hfound).1] at hmem
        cases hmem
      | some found =>
        -- each of the two is at least as far inside as the other, so they are at one place
        obtain ⟨hfurthest, -⟩ := foldl_inner_furthest hsorted (by simp) hfound
        have hfound' := (mem_of_foldl_inner hfound).resolve_right (by simp)
        have hthere : IsFurtherIn j b found.1 found.2 := hfurthest (j, b) hmem
        have hback := hinnermost found.1 found.2 ((reachesFrom_iff hm).mpr hfound')
        refine ⟨found, rfl, ?_⟩
        unfold IsFurtherIn at hthere hback
        omega

/-- A message has no taker exactly if nothing reaches it. -/
private theorem isNone_taker? (entries : List Suppression) (m : Message) :
    (taker? entries m).isNone = !entries.any (·.reaches m) := by
  cases htaker : taker? entries m with
  | some j =>
    obtain ⟨b, ⟨s, hs, hreaches, -⟩, -⟩ := taker?_eq_some_iff.mp htaker
    have hany : entries.any (·.reaches m) = true :=
      List.any_eq_true.mpr ⟨s, List.mem_of_getElem? hs, hreaches⟩
    simp [hany]
  | none =>
    -- what reaches the message would have been there to choose
    have hany : entries.any (·.reaches m) = false := by
      rw [List.any_eq_false]
      intro s hs hreaches
      cases hm : m.rule with
      | none => rw [reaches_of_rule_eq_none hm] at hreaches; cases hreaches
      | some rule =>
        simp only [taker?, hm, Option.bind_some, innermost?_eq, Option.map_eq_none_iff] at htaker
        obtain ⟨i, hi⟩ := List.mem_iff_getElem?.mp hs
        have hcovers : s.covers m.location.offset = true := by
          simp only [Suppression.reaches, Bool.and_eq_true] at hreaches
          exact hreaches.2
        obtain ⟨range, hrange, -⟩ := (Option.any_eq_true _ _).mp hcovers
        have hmem := (reachesFrom_iff hm).mp ⟨s, hi, hreaches, hrange⟩
        rw [(foldl_inner_eq_none_iff.mp htaker).1] at hmem
        cases hmem
    simp [hany]

end Taker

/-! ## What is observed -/

/-- No suppression begins with a mark. -/
private theorem matched_of_mem_begun {configured : List String} {e : Event} {sup : Suppression}
    (h : sup ∈ begun configured e) : sup.matched = false := by
  cases e with
  | directive action rules parent location => exact (of_mem_begun h).2.2.2
  | _ => cases h

/-- Whatever is observed, nothing is marked by it. -/
private theorem matched_of_mem_entries {s : Suppressions}
    (hs : ∀ sup ∈ s.entries, sup.matched = false) (ms : List Moment) :
    ∀ sup ∈ (ms.foldl observe s).entries, sup.matched = false := by
  induction ms generalizing s with
  | nil => exact hs
  | cons m ms ih =>
    apply ih
    intro sup hsup
    cases List.mem_append.mp hsup with
    | inl hsup =>
      obtain ⟨sup, hmem, rfl⟩ := List.mem_map.mp hsup
      exact hs sup hmem
    | inr hsup => exact matched_of_mem_begun hsup

/-- No moment changes which rules are configured. -/
private theorem configured_foldl (s : Suppressions) (ms : List Moment) :
    (ms.foldl observe s).configured = s.configured := by
  induction ms generalizing s with
  | nil => rfl
  | cons m ms ih => rw [List.foldl_cons, ih]; rfl

/-- Every complaint is about the directive of an event. -/
private theorem mem_complaints_foldl {s : Suppressions} {ms : List Moment} {m : Message}
    (h : m ∈ (ms.foldl observe s).complaints) :
    m ∈ s.complaints ∨ ∃ e ∈ ms.map Moment.event, m ∈ complaintsAbout s.configured e := by
  induction ms generalizing s with
  | nil => exact .inl h
  | cons first ms ih =>
    obtain hm | ⟨e, he, hm⟩ := ih h
    · cases List.mem_append.mp hm with
      | inl hm => exact .inl hm
      | inr hm => exact .inr ⟨first.event, List.mem_cons_self .., hm⟩
    · exact .inr ⟨e, List.mem_cons_of_mem _ he, hm⟩

/-! ## What is added -/

/-- The message is about directives: one of the events names an unknown rule or is no directive, a
suppression overlaps another one, or no message is put down to it. -/
inductive IsDiagnostic (s : Suppressions) (es : List Event) (messages : List Message) :
    Message → Prop where
  | unknown {action : DirectiveAction} {rules : List DirectiveRule} {parent : NodeId}
      {location : Location}
      {r : DirectiveRule} (he : .directive action rules parent location ∈ es) (hr : r ∈ rules)
      (hunknown : r.id ∉ s.configured) : IsDiagnostic s es messages (unknownRule r)
  | invalid {fault : DirectiveFault} {location : Location}
      (he : .invalidDirective fault location ∈ es) :
      IsDiagnostic s es messages {
        rule := none, severity := .error, location, text := fault.message }
  | overlap {sup : Suppression} {rule : String} (hsup : sup ∈ s.entries)
      (hrule : sup.rule = some rule) :
      IsDiagnostic s es messages { rule := none, severity := .warning, location := sup.location
                                   text := "Directive for \"" ++ rule ++
                                     "\" partially overlaps a previous directive" }
  | unused {i : Nat} {sup : Suppression} {severity : Severity} (hi : s.entries[i]? = some sup)
      (henabled : s.enabled.get? noUnusedDisable = some severity)
      (hunused : ∀ m ∈ messages, ¬ IsInnermost s.entries m i) :
      IsDiagnostic s es messages (unusedReport severity sup)

section Diagnostics

variable {s : Suppressions} {es : List Event} {messages : List Message} {m : Message}

/-- A complaint about a directive is a diagnostic. -/
private theorem isDiagnostic_of_mem_complaintsAbout {e : Event} (he : e ∈ es)
    (h : m ∈ complaintsAbout s.configured e) : s.IsDiagnostic es messages m := by
  cases e with
  | directive action rules parent location =>
    obtain ⟨r, hr, rfl⟩ := List.mem_map.mp h
    obtain ⟨hmem, hunknown⟩ := List.mem_filter.mp hr
    exact .unknown he hmem (by simpa using hunknown)
  | invalidDirective fault location =>
    rw [List.mem_singleton.mp h]
    exact .invalid he
  | _ => cases h

/-- So is a warning about an overlap. -/
private theorem isDiagnostic_of_mem_overlaps (h : m ∈ overlaps s.entries) :
    s.IsDiagnostic es messages m := by
  obtain ⟨⟨later, j⟩, hmem, hm⟩ := List.mem_filterMap.mp h
  have hlater := List.mem_of_getElem? (List.mk_mem_zipIdx_iff_getElem?.mp hmem)
  simp only at hm
  split at hm
  · rename_i rule b hrule hb
    obtain ⟨-, hm⟩ := Option.ite_none_right_eq_some.mp hm
    cases hm
    exact .overlap hlater hrule
  · cases hm

/-- A report is made only on a suppression that is not marked by then. -/
private theorem matched_of_mem_review {entries : List Suppression} {places : List Nat} {i : Nat}
    {taker : Option Nat} (h : (i, taker) ∈ review entries places) :
    ∃ sup, entries[i]? = some sup ∧ sup.matched = false := by
  fun_induction review entries places with
  | case1 entries => cases h
  | case2 entries k places hs ih => exact ih h
  | case3 entries k places sup hs hmatched ih => exact ih h
  | case4 entries k places sup hs hmatched j hj ih =>
    cases List.mem_cons.mp h with
    | inl h => cases h; exact ⟨sup, hs, by simpa using hmatched⟩
    | inr h =>
      -- a mark that is set on the way was not set before
      obtain ⟨marked, hi, hunmatched⟩ := ih h
      rw [getElem?_mark, Option.map_eq_some_iff] at hi
      obtain ⟨sup', hsup', rfl⟩ := hi
      simp only [Bool.or_eq_false_iff] at hunmatched
      exact ⟨sup', hsup', hunmatched.1⟩
  | case5 entries k places sup hs hmatched hj ih =>
    cases List.mem_cons.mp h with
    | inl h => cases h; exact ⟨sup, hs, by simpa using hmatched⟩
    | inr h => exact ih h

/-- So is a report of an unused suppression. -/
private theorem isDiagnostic_of_mem_reports (h : m ∈ s.reports messages) :
    s.IsDiagnostic es messages m := by
  unfold reports at h
  split at h
  · cases h
  · rename_i severity henabled
    obtain ⟨⟨i, taker⟩, hfound, hm⟩ := List.mem_filterMap.mp h
    simp only [seenReport?, Option.ite_none_right_eq_some, Option.map_eq_some_iff] at hm
    obtain ⟨-, sup, hi, rfl⟩ := hm
    refine .unused hi henabled fun m hm hinnermost => ?_
    -- whoever takes a message away is marked before the reports are made
    rw [reviewed, suppress_eq] at hfound
    obtain ⟨marked, hmarked, hunmatched⟩ := matched_of_mem_review hfound
    rw [getElem?_markAll, hi] at hmarked
    cases hmarked
    have htaken : i ∈ messages.filterMap (taker? s.entries) :=
      List.mem_filterMap.mpr ⟨m, hm, taker?_eq_some_iff.mpr hinnermost⟩
    simp [htaken] at hunmatched

end Diagnostics

/-- Resolving leaves the messages that no suppression reaches, in their order, and adds messages
about directives only. -/
theorem resolve_eq_append {s : Suppressions} {configured : List String} {enabled : NameMap Severity}
    {ms : List Moment} (hs : s = ms.foldl observe (.start configured enabled))
    (messages : List Message) :
    ∃ diagnostics,
      s.resolve messages = (messages.filter fun m => !s.entries.any (·.reaches m)) ++ diagnostics ∧
      ∀ m ∈ diagnostics, s.IsDiagnostic (ms.map Moment.event) messages m := by
  refine ⟨s.complaints ++ overlaps s.entries ++ s.reports messages, ?_, ?_⟩
  · rw [resolve_eq]
    simp only [isNone_taker?, List.append_assoc]
  · intro m hm
    simp only [List.mem_append] at hm
    obtain (hm | hm) | hm := hm
    · rw [hs] at hm
      obtain hm | ⟨e, he, hm⟩ := mem_complaints_foldl hm
      · cases hm
      · apply isDiagnostic_of_mem_complaintsAbout he
        rwa [hs, configured_foldl]
    · exact isDiagnostic_of_mem_overlaps hm
    · exact isDiagnostic_of_mem_reports hm

end Suppressions

/-- Whatever moments have been observed, resolving leaves the messages that no suppression reaches,
in their order, and adds only messages about directives.  Every other message is put down to one
suppression, the innermost of those that reach it.  A suppression is marked by the time unused ones
are looked for exactly if a message was put down to it. -/
theorem resolve_attributes (configured : List String) (enabled : NameMap Severity)
    (ms : List Moment) (messages : List Message) :
    let s := ms.foldl Suppressions.observe (.start configured enabled)
    (∃ diagnostics,
      s.resolve messages = (messages.filter fun m => !s.entries.any (·.reaches m)) ++ diagnostics ∧
      ∀ m ∈ diagnostics, s.IsDiagnostic (ms.map Moment.event) messages m) ∧
    (∀ m ∈ messages, s.entries.any (·.reaches m) = true →
      ∃ i, Suppressions.IsInnermost s.entries m i ∧
        ∀ j, Suppressions.IsInnermost s.entries m j → j = i) ∧
    ∀ i sup, s.entries[i]? = some sup →
      ∃ matched, (Suppressions.suppress s.entries messages).1[i]? = some { sup with matched } ∧
        (matched = false ↔ ∀ m ∈ messages, ¬ Suppressions.IsInnermost s.entries m i) := by
  intro s
  have hunmatched : ∀ sup ∈ s.entries, sup.matched = false :=
    Suppressions.matched_of_mem_entries (by simp [Suppressions.start]) ms
  refine ⟨Suppressions.resolve_eq_append rfl messages, ?_, ?_⟩
  · intro m _ hreaches
    -- the one that takes a message is the innermost that reaches it, which is one at most
    cases htaker : Suppressions.taker? s.entries m with
    | none =>
      have hnone := Suppressions.isNone_taker? s.entries m
      simp [htaker, hreaches] at hnone
    | some i =>
      refine ⟨i, Suppressions.taker?_eq_some_iff.mp htaker, fun j hj => ?_⟩
      rw [Suppressions.taker?_eq_some_iff.mpr hj] at htaker
      exact Option.some.inj htaker
  · intro i sup hsup
    rw [Suppressions.suppress_eq, Suppressions.getElem?_markAll, hsup]
    refine ⟨_, rfl, ?_⟩
    simp [hunmatched sup (List.mem_of_getElem? hsup), Suppressions.taker?_eq_some_iff]

/-- A message inside two suppressions of its rule and one of all rules that covers the same bytes as
the inner one: it is put down to the one of all rules, which was begun last. -/
theorem resolve_attributes_nested :
    let source := "<!-- [html-validate-disable foo] --><!-- [html-validate-disable-next foo] -->" ++
      "<!-- [html-validate-disable-next] --><p></p>"
    let ms := (Construction.record ⟨.empty⟩ (tokenize source).tokens (byteLength source.toList)).2
    let s := ms.foldl Suppressions.observe (.start ["foo"] .empty)
    let message : Message :=
      { rule := some "foo", severity := .error, text := "", location := ⟨⟨114, 1, 115⟩, 2⟩ }
    s.entries.map Suppression.coverage? = [some ⟨36, 121⟩, some ⟨114, 121⟩, some ⟨114, 121⟩] ∧
    (Suppressions.suppress s.entries [message]).1.map Suppression.matched = [false, false, true] ∧
    (s.resolve [message]).length = 0 ∧
    ∃ i, Suppressions.IsInnermost s.entries message i ∧
      ∀ j, Suppressions.IsInnermost s.entries message j → j = i := by
  intro source ms s message
  have hs : s.entries.any (·.reaches message) = true ∧
      s.entries.map Suppression.coverage? = [some ⟨36, 121⟩, some ⟨114, 121⟩, some ⟨114, 121⟩] ∧
      (Suppressions.suppress s.entries [message]).1.map Suppression.matched = [false, false, true] ∧
      (s.resolve [message]).length = 0 := by decide +kernel
  obtain ⟨hreaches, hcoverage, hmatched, hlength⟩ := hs
  obtain ⟨-, hone, -⟩ := resolve_attributes ["foo"] .empty ms [message]
  exact ⟨hcoverage, hmatched, hlength, hone message (List.mem_singleton_self _) hreaches⟩

end HtmlLint
