import HtmlLint.Proofs.Construction.Shown
import HtmlLint.Proofs.Linter.Findings
import HtmlLint.Proofs.Suppression.Resolution

/-!
# Every message points into the source

The place of a message is that of an event, of a node, of the value of an attribute, or of a rule
that a directive names; all of these lie in the source while it is parsed (`record_liesIn`).  A
source that cannot be cut into tokens gets one message, at the fault.  So the bytes, the line and
the column that a report tells can be trusted, whatever the settings: `check_pointsInto`.
-/

namespace HtmlLint

variable {source : List Char}

/-! ## Findings -/

/-- The start of a slice lies in the source. -/
private theorem Location.LiesIn.collapse {l : Location} (h : l.LiesIn source) :
    ({ l with size := 0 } : Location).LiesIn source := by
  obtain ⟨before, inside, after, hsource, rfl⟩ := h
  exact ⟨before, [], inside ++ after, by rw [hsource]; simp, rfl⟩

/-- The place of an event that lies in the source does so. -/
private theorem Event.LiesIn.of_location? {e : Event} (h : e.LiesIn source) {l : Location}
    (hl : e.location? = some l) :
    l.LiesIn source := by
  cases e with
  | domLoad | domReady => cases hl
  | tagOpen | tagClose | elementReady | doctype | invalidDirective | parseError =>
    cases hl
    exact h
  | attr | directive =>
    cases hl
    exact h.1

/-- So does the place of a node, be it there or not. -/
private theorem Document.LiesIn.node {d : Document} (h : d.LiesIn source) (i : Nat) :
    (d.node i).location.LiesIn source := by
  cases hi : d.get? i with
  | none =>
    have hroot : d.node i = d.root := by simp [Document.node, hi]
    rw [hroot]
    exact h rootId _ d.get?_rootId
  | some n =>
    rw [Document.node_of_get? hi]
    exact h i n hi

/-- A finding without a place of its own has one of those that the moment tells. -/
private theorem Finding.place_liesIn {f : Finding} {m : Moment} (he : m.event.LiesIn source)
    (hd : m.document.LiesIn source) (hf : ∀ l, f.location = some l → l.LiesIn source) :
    (f.place m).LiesIn source := by
  unfold Finding.place
  cases hl : f.location with
  | some l => exact hf l hl
  | none =>
    cases hl' : m.event.location? with
    | some l => exact he.of_location? hl'
    | none =>
      cases hn : f.node.bind m.document.get? with
      | some n =>
        obtain ⟨i, -, hi⟩ := Option.bind_eq_some_iff.mp hn
        exact hd i n hi
      | none => exact (hd rootId _ m.document.get?_rootId).collapse

/-- A place that a finding has of its own lies in the source. -/
private theorem Finding.Concerns.location_liesIn {f : Finding} {m : Moment} (h : f.Concerns m)
    (he : m.event.LiesIn source) (hd : m.document.LiesIn source) {l : Location}
    (hl : f.location = some l) :
    l.LiesIn source := by
  cases h with
  | document _ hnone => rw [hnone] at hl; cases hl
  | opened _ _ hnone => rw [hnone] at hl; cases hl
  | element _ _ hnode =>
    rw [hnode] at hl
    cases hl
    exact hd.node _
  | attr hattr _ hplace =>
    rw [hattr] at he
    obtain hnone | ⟨value, hvalue, hown⟩ := hplace
    · rw [hnone] at hl; cases hl
    · rw [hown] at hl
      cases hl
      exact he.2 value hvalue

/-! ## Directives -/

namespace Suppressions

/-- A suppression lies where a directive or one of its rules does. -/
private theorem liesIn_of_mem_begun {configured : List String} {e : Event} (he : e.LiesIn source)
    {sup : Suppression} (h : sup ∈ begun configured e) : sup.location.LiesIn source := by
  cases e with
  | directive action rules parent location =>
    simp only [begun] at h
    split at h
    · cases h
    · split at h
      · rw [List.mem_singleton.mp h]
        exact he.1
      · obtain ⟨r, hr, rfl⟩ := List.mem_map.mp h
        exact he.2 r (List.mem_filter.mp hr).1
  | _ => cases h

/-- So do the places of all suppressions. -/
private theorem liesIn_of_mem_entries {s : Suppressions}
    (hs : ∀ sup ∈ s.entries, sup.location.LiesIn source) {ms : List Moment}
    (hms : ∀ m ∈ ms, m.event.LiesIn source) :
    ∀ sup ∈ (ms.foldl observe s).entries, sup.location.LiesIn source := by
  induction ms generalizing s with
  | nil => exact hs
  | cons m ms ih =>
    refine ih ?_ fun m' hm' => hms m' (List.mem_cons_of_mem _ hm')
    intro sup hsup
    cases List.mem_append.mp hsup with
    | inl hsup =>
      -- watching a moment does not change where a suppression is written
      obtain ⟨old, hold, rfl⟩ := List.mem_map.mp hsup
      exact hs old hold
    | inr hsup => exact liesIn_of_mem_begun (hms m (List.mem_cons_self ..)) hsup

/-- What is said about directives is said where they are written. -/
private theorem IsDiagnostic.liesIn {s : Suppressions} {es : List Event} {messages : List Message}
    {m : Message} (h : s.IsDiagnostic es messages m) (hes : ∀ e ∈ es, e.LiesIn source)
    (hs : ∀ sup ∈ s.entries, sup.location.LiesIn source) : m.location.LiesIn source := by
  cases h with
  | unknown he hr _ => exact (hes _ he).2 _ hr
  | invalid he => exact hes _ he
  | overlap hsup _ => exact hs _ hsup
  | unused hi _ _ => exact hs _ (List.mem_of_getElem? hi)

end Suppressions

/-! ## Reports -/

/-- All that remains to be said after watching moments that lie in the source lies in the source. -/
private theorem Linter.liesIn_of_mem_resolve {settings : Settings} {l : Linter}
    (hl : ofSettings .standard settings = .ok l) {ms : List Moment}
    (hms : ∀ m ∈ ms, m.event.LiesIn source ∧ m.document.LiesIn source) {message : Message}
    (h : message ∈ (ms.foldl Session.observe l.session).resolve) :
    message.location.LiesIn source := by
  have hsuppressions : (ms.foldl Session.observe l.session).suppressions =
      ms.foldl Suppressions.observe (.start l.configured l.enabled) :=
      Session.suppressions_foldl _ ms
  obtain ⟨diagnostics, heq, hdiagnostics⟩ := Suppressions.resolve_eq_append hsuppressions
    (ms.foldl Session.observe l.session).messages
  rw [Session.resolve, heq] at h
  cases List.mem_append.mp h with
  | inl h =>
    -- a message of a rule is at the place of its finding, or of the event and node that it is about
    obtain ⟨m, hm, r, -, f, rfl, hfinding⟩ := of_mem_messages hl (List.mem_filter.mp h).1
    obtain ⟨he, hd⟩ := hms m hm
    apply Finding.place_liesIn he hd
    intro place hplace
    obtain hconcerns | ⟨-, hnone⟩ := hfinding
    · exact hconcerns.location_liesIn he hd hplace
    · rw [hnone] at hplace
      cases hplace
  | inr h =>
    -- a message about a directive is at the place that the directive gives
    apply (hdiagnostics message h).liesIn
    · intro e he
      obtain ⟨m, hm, rfl⟩ := List.mem_map.mp he
      exact (hms m hm).1
    · rw [hsuppressions]
      exact Suppressions.liesIn_of_mem_entries (by simp [Suppressions.start]) fun m hm =>
        (hms m hm).1

/-- Reporting messages does not change their places. -/
private theorem DocumentReport.mem_of_mem_ofMessages {file : String} {d : Option Document}
    {locate : Locator} {messages : List Message} {m : ReportedMessage}
    (h : m ∈ (ofMessages file d locate messages).messages) :
    m.message ∈ messages := by
  obtain ⟨message, hmem, rfl⟩ := List.mem_map.mp h
  exact List.mem_mergeSort.mp hmem

/-- Whatever the settings, and whether or not the source can be cut into tokens, every message of
the report points into the source. -/
theorem check_pointsInto {settings : Settings} {l : Linter}
    (hl : Linter.ofSettings .standard settings = .ok l) (locate : Locator) (file source : String) :
    ∀ m ∈ (Linter.check { l with locate } file source).messages,
      m.message.location.PointsInto source.toList := by
  intro m hm
  apply Location.LiesIn.pointsInto
  have hwatch : Linter.watch { l with locate } source =
      observeParsing l.vocabulary Session.observe l.session source := rfl
  unfold Linter.check at hm
  rw [hwatch] at hm
  cases hfailure : (tokenize source).failure with
  | none =>
    -- the whole document was read, and every moment of it lies in the source
    rw [observeParsing_eq hfailure] at hm
    apply Linter.liesIn_of_mem_resolve hl _ (DocumentReport.mem_of_mem_ofMessages hm)
    exact fun m hm => record_liesIn hfailure l.vocabulary hm
  | some e =>
    -- the one message tells where reading failed
    simp only [observeParsing, hfailure] at hm
    have hmem := DocumentReport.mem_of_mem_ofMessages hm
    rw [List.mem_singleton.mp hmem]
    exact tokenize_failure_liesIn hfailure

/-- A character of two bytes, a line break, a value without quotes, an end tag that is not the one
expected, and an element without end. -/
theorem check_pointsInto_mismatch :
    let settings : Settings :=
      ⟨.ofList [("attr-quotes", { severity := .error }), ("close-order", { severity := .warning })],
        .empty⟩
    let source := "<p>é\n <b id=x></i>"
    ∃ l, Linter.ofSettings .standard settings = .ok l ∧
      (l.watch source).2.resolve.map Message.location =
        [⟨⟨13, 2, 8⟩, 1⟩, ⟨⟨15, 2, 10⟩, 4⟩, ⟨⟨7, 2, 2⟩, 8⟩] ∧
      ∀ m ∈ (l.check "page" source).messages, m.message.location.PointsInto source.toList := by
  intro settings source
  have hwatched : ((Linter.ofSettings .standard settings).toOption.map fun l =>
      (l.watch source).2.resolve.map Message.location) =
        some [⟨⟨13, 2, 8⟩, 1⟩, ⟨⟨15, 2, 10⟩, 4⟩, ⟨⟨7, 2, 2⟩, 8⟩] := by
    rw [Linter.ofSettings_of_html rfl]
    decide +kernel
  cases hl : Linter.ofSettings .standard settings with
  | error e => rw [hl] at hwatched; cases hwatched
  | ok l =>
    rw [hl] at hwatched
    exact ⟨l, rfl, Option.some.inj hwatched, check_pointsInto hl l.locate "page" source⟩

end HtmlLint
