import HtmlLint.Proofs.Linter.Independence
import HtmlLint.Proofs.Suppression.Resolution

/-!
# What a report says

A report tells all messages that remain, in the order of their places, and those at one place in the
order in which they were found: `filter_offset_sortByOffset`.  None of them is off.  A rule that is
off does not run, the reports on suppressions without effect are as severe as the rule for them,
which runs, and everything else that is said about directives is an error or a warning
(`Linter.severity_of_mem_resolve`).  So errors and warnings are all there is to count, and a source
is valid exactly if nothing about it is an error: `check_counts_all`.
-/

namespace HtmlLint

/-! ## The order of the messages -/

/-- Sorted messages come in the order of the source. -/
private theorem pairwise_sortByOffset (messages : List Message) :
    (sortByOffset messages).Pairwise fun a b => a.location.offset ≤ b.location.offset := by
  have hsorted := List.pairwise_mergeSort Message.offset_le_trans Message.offset_le_total messages
  exact hsorted.imp fun hle => by simpa using hle

/-- Messages at the same place keep their order. -/
theorem filter_offset_sortByOffset (offset : Nat) (messages : List Message) :
    (sortByOffset messages).filter (fun m => m.location.offset == offset) =
      messages.filter fun m => m.location.offset == offset := by
  rw [filter_sortByOffset]
  -- they are in order already
  have hsame : ∀ m ∈ messages.filter fun m => m.location.offset == offset,
      m.location.offset = offset := by
    intro m hm
    simpa using (List.mem_filter.mp hm).2
  apply List.mergeSort_of_pairwise
  apply List.pairwise_iff_getElem.mpr
  intro i j hi hj hlt
  rw [hsame _ (List.getElem_mem hi), hsame _ (List.getElem_mem hj)]
  exact decide_eq_true (Nat.le_refl offset)

/-! ## Severities -/

/-- A rule that is off does not run. -/
private theorem Settings.severity_of_mem_activeRules {s : Settings} {registry : Registry}
    {rules : List ActiveRule} (h : s.activeRules registry = .ok rules) {r : ActiveRule}
    (hr : r ∈ rules) : r.severity ≠ .off := by
  obtain ⟨⟨id, setting⟩, hmem, hmade⟩ := exists_of_mem_mapM h hr
  have henabled : setting.severity.isEnabled = true := (List.mem_filter.mp hmem).2
  have hoff : setting.severity ≠ .off := by simpa [Severity.isEnabled] using henabled
  -- a rule has the severity of its setting, whether it is registered or not
  simp only at hmade
  split at hmade
  · cases hmade
    exact hoff
  · split at hmade
    · cases hmade
    · cases hmade
      exact hoff

/-- What is said about directives is off only if the rule for suppressions without effect is. -/
private theorem Suppressions.IsDiagnostic.severity_ne {s : Suppressions} {es : List Event}
    {messages : List Message} {m : Message} (h : s.IsDiagnostic es messages m)
    (hs : ∀ severity, s.enabled.get? noUnusedDisable = some severity → severity ≠ .off) :
    m.severity ≠ .off := by
  cases h with
  | unknown | invalid | overlap => simp [unknownRule]
  | unused _ henabled _ => exact hs _ henabled

/-- A session keeps the rules that it knows to run. -/
private theorem Suppressions.enabled_foldl (s : Suppressions) (ms : List Moment) :
    (ms.foldl observe s).enabled = s.enabled := by
  induction ms generalizing s with
  | nil => rfl
  | cons m ms ih => exact ih (s.observe m)

/-- Whatever is watched, nothing that remains to be said is off. -/
theorem Linter.severity_of_mem_resolve {registry : Registry} {s : Settings} {l : Linter}
    (hl : ofSettings registry s = .ok l) {ms : List Moment} {message : Message}
    (h : message ∈ (ms.foldl Session.observe l.session).resolve) : message.severity ≠ .off := by
  have hrules : ∀ r ∈ l.rules, r.severity ≠ .off := fun r hr =>
    Settings.severity_of_mem_activeRules (activeRules_of_ofSettings hl) hr
  have hsuppressions : (ms.foldl Session.observe l.session).suppressions =
      ms.foldl Suppressions.observe (.start l.configured l.enabled) :=
      Session.suppressions_foldl _ ms
  obtain ⟨diagnostics, heq, hdiagnostics⟩ := Suppressions.resolve_eq_append hsuppressions
    (ms.foldl Session.observe l.session).messages
  rw [Session.resolve, heq] at h
  cases List.mem_append.mp h with
  | inl h =>
    obtain hnone | ⟨m, -, r, hr, history, hmem⟩ := Session.of_mem_messages (List.mem_filter.mp h).1
    · cases hnone
    · -- a message of a rule is as severe as the rule
      obtain ⟨-, f, -, rfl⟩ := ActiveRule.of_mem_messages hmem
      exact hrules r hr
  | inr h =>
    -- an unused directive is reported with the severity of the rule for that, which is switched on
    apply (hdiagnostics message h).severity_ne
    intro severity hseverity
    rw [hsuppressions, Suppressions.enabled_foldl] at hseverity
    have hmem := NameMap.mem_of_get?_ofList hseverity
    obtain ⟨r, hr, hentry⟩ := List.mem_map.mp hmem
    obtain ⟨-, rfl⟩ := Prod.mk.inj hentry
    exact hrules r hr

/-! ## Counting -/

namespace DocumentReport

variable {r : DocumentReport}

/-- Where nothing is off, errors and warnings are all there is. -/
private theorem errorCount_add_warningCount (h : ∀ m ∈ r.messages, m.message.severity ≠ .off) :
    r.errorCount + r.warningCount = r.messages.length := by
  have hrest : ∀ m ∈ r.messages, (m.message.severity == .warning) =
      !(m.message.severity == .error) := by
    intro m hm
    have hoff := h m hm
    cases hseverity : m.message.severity with
    | off => exact absurd hseverity hoff
    | warning | error => rfl
  unfold errorCount warningCount count
  rw [List.filter_congr hrest, ← List.countP_eq_length_filter, ← List.countP_eq_length_filter,
    List.length_eq_countP_add_countP fun m : ReportedMessage => m.message.severity == .error]
  simp only [Bool.not_eq_true, Bool.decide_eq_false]

/-- A report is valid if there is no error in it. -/
private theorem isValid_iff : r.isValid = true ↔ ∀ m ∈ r.messages, m.message.severity ≠ .error := by
  simp [isValid, errorCount, count]

/-- A report has all messages, sorted. -/
private theorem map_message_ofMessages (file : String) (d : Option Document) (locate : Locator)
    (messages : List Message) :
    (ofMessages file d locate messages).messages.map ReportedMessage.message =
      sortByOffset messages := by
  simp [ofMessages, Function.comp_def]

end DocumentReport

/-! ## Reports -/

/-- A source that can be cut into tokens is reported with all that remains to be said. -/
private theorem Linter.check_of_tokens (l : Linter) (file : String) {source : String}
    (h : (tokenize source).failure = none) :
    ∃ d, l.check file source = .ofMessages file (some d) l.locate (l.watch source).2.resolve := by
  have hwatch : ∃ d, (l.watch source).1 = .ok d := by
    simp only [watch, observeParsing, h]
    exact ⟨_, rfl⟩
  obtain ⟨d, hd⟩ := hwatch
  refine ⟨d, ?_⟩
  unfold check
  generalize l.watch source = watched at hd
  obtain ⟨result, session⟩ := watched
  cases hd
  rfl

/-- A source that cannot be cut into tokens is reported with the fault alone. -/
private theorem Linter.check_of_failure (l : Linter) (file : String) {source : String}
    {e : ScanError} (h : (tokenize source).failure = some e) :
    l.check file source = .ofMessages file none l.locate [faultMessage e] := by
  have hwatch : (l.watch source).1 = .error e := by
    simp only [watch, observeParsing, h]
  unfold check
  generalize l.watch source = watched at hwatch
  obtain ⟨result, session⟩ := watched
  cases hwatch
  rfl

/-- Whatever the rules and the settings, the report on a source has its messages in the order of
their offsets, and none of them is off, so that errors and warnings are all that it counts, and it
is valid exactly if it has no error.  If the source can be cut into tokens, these are the messages
that remain to be said, and those at one offset keep their order; if not, there is one error, of no
rule. -/
theorem check_counts_all {registry : Registry} {s : Settings} {l : Linter}
    (hl : Linter.ofSettings registry s = .ok l) (locate : Locator) (file source : String) :
    let report := Linter.check { l with locate } file source
    let told := report.messages.map ReportedMessage.message
    let remaining := (l.watch source).2.resolve
    told.Pairwise (fun a b => a.location.offset ≤ b.location.offset) ∧
    ((tokenize source).failure = none → told.Perm remaining ∧
      ∀ offset, (told.filter fun m => m.location.offset == offset) =
        remaining.filter fun m => m.location.offset == offset) ∧
    (∀ m ∈ told, m.severity ≠ .off) ∧
    report.errorCount + report.warningCount = report.messages.length ∧
    (report.isValid = true ↔ ∀ m ∈ told, m.severity ≠ .error) ∧
    ∀ e, (tokenize source).failure = some e → report.messages =
      [⟨{ rule := none, severity := .error, text := e.fault.message, location := e.location },
        none⟩] := by
  intro report told remaining
  -- in both cases the report is made from messages of which none is off
  obtain ⟨d, messages, hreport, hoff⟩ : ∃ d messages, report = .ofMessages file d locate messages ∧
      ∀ m ∈ messages, m.severity ≠ .off := by
    cases hfailure : (tokenize source).failure with
    | none =>
      obtain ⟨d, hd⟩ := Linter.check_of_tokens { l with locate } file hfailure
      obtain ⟨ms, hms⟩ := observeParsing_snd l.vocabulary Session.observe l.session source
      have hremaining : remaining = (ms.foldl Session.observe l.session).resolve := by
        show (l.watch source).2.resolve = _
        rw [Linter.watch, hms]
      refine ⟨some d, remaining, hd, fun m hm => ?_⟩
      rw [hremaining] at hm
      exact Linter.severity_of_mem_resolve hl hm
    | some e =>
      refine ⟨none, [Linter.faultMessage e],
        Linter.check_of_failure { l with locate } file hfailure, ?_⟩
      simp [Linter.faultMessage]
  have htold : told = sortByOffset messages := by
    show report.messages.map ReportedMessage.message = _
    rw [hreport, DocumentReport.map_message_ofMessages]
  have htoldoff : ∀ m ∈ told, m.severity ≠ .off := by
    intro m hm
    rw [htold] at hm
    exact hoff m (List.mem_mergeSort.mp hm)
  have hmessages : ∀ m ∈ report.messages, m.message.severity ≠ .off := fun m hm =>
    htoldoff m.message (List.mem_map_of_mem hm)
  refine ⟨?_, ?_, htoldoff, DocumentReport.errorCount_add_warningCount hmessages, ?_, ?_⟩
  · rw [htold]
    exact pairwise_sortByOffset messages
  · intro hfailure
    obtain ⟨d, hd⟩ := Linter.check_of_tokens { l with locate } file hfailure
    have hremaining : told = sortByOffset remaining := by
      show report.messages.map ReportedMessage.message = _
      rw [show report = _ from hd, DocumentReport.map_message_ofMessages]
      rfl
    rw [hremaining]
    exact ⟨List.mergeSort_perm _ _, fun offset => filter_offset_sortByOffset offset remaining⟩
  · rw [DocumentReport.isValid_iff, List.forall_mem_map]
  · intro e hfailure
    rw [show report = _ from Linter.check_of_failure { l with locate } file hfailure]
    simp [DocumentReport.ofMessages, sortByOffset, Linter.faultMessage]

/-- An unknown directive before an attribute without quotes.  What is said about the attribute is
found first, and the report tells it last. -/
theorem check_counts_all_directive :
    let settings : Settings := ⟨.ofList [("attr-quotes", { severity := .warning })], .empty⟩
    let source := "<!-- [html-validate-foo] --><p id=a></p>"
    ∃ l, Linter.ofSettings .standard settings = .ok l ∧ (tokenize source).failure = none ∧
      (l.watch source).2.resolve.map (fun m => (m.severity, m.location.offset)) =
        [(.warning, 34), (.error, 0)] ∧
      (let report := Linter.check { l with locate := Document.selector? } "page" source
      let told := report.messages.map ReportedMessage.message
      let remaining := (l.watch source).2.resolve
      told.Pairwise (fun a b => a.location.offset ≤ b.location.offset) ∧
      ((tokenize source).failure = none → told.Perm remaining ∧
        ∀ offset, (told.filter fun m => m.location.offset == offset) =
          remaining.filter fun m => m.location.offset == offset) ∧
      (∀ m ∈ told, m.severity ≠ .off) ∧
      report.errorCount + report.warningCount = report.messages.length ∧
      (report.isValid = true ↔ ∀ m ∈ told, m.severity ≠ .error) ∧
      ∀ e, (tokenize source).failure = some e → report.messages =
        [⟨{ rule := none, severity := .error, text := e.fault.message, location := e.location },
          none⟩]) := by
  intro settings source
  have hscan : (tokenize source).failure = none := by decide +kernel
  have hremaining : ((Linter.ofSettings .standard settings).toOption.map fun l =>
      (l.watch source).2.resolve.map fun m => (m.severity, m.location.offset)) =
        some [(.warning, 34), (.error, 0)] := by
    rw [Linter.ofSettings_of_html rfl]
    decide +kernel
  obtain ⟨l, hl, hremaining⟩ := exists_of_map_toOption hremaining
  exact ⟨l, hl, hscan, hremaining, check_counts_all hl Document.selector? "page" source⟩

end HtmlLint
