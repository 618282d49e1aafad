import HtmlLint.Proofs.Linter.Findings
import HtmlLint.Proofs.Suppression.Unused

/-!
# Rules do not interfere

How severe a rule is, and whether it runs at all, matters to its own messages and to the reports on
suppressions without effect.  All other messages of a report stay as they are:
`check_filter_isOther` says so of every source and of any two settings that are the same once one
rule is switched off in both.

A linter is followed from its settings to its report, and at every stage there is a statement of
what is left when the rule is taken out: the rules that run (`Settings.activeRules_switchOff`), what
a session has seen and said (`Session.SameBut`), what resolving leaves
(`Session.SameBut.filter_resolve`), and the order of the report (`filter_sortByOffset`).
-/

namespace HtmlLint

/-- The message has nothing to do with a rule: it is neither from this rule nor a report on a
suppression. -/
def Message.isOther (id : String) (m : Message) : Bool :=
  m.rule != some id && m.rule != some noUnusedDisable

/-! ## Settings -/

/-- The settings with a rule switched off. -/
def Settings.switchOff (s : Settings) (id : String) : Settings :=
  { s with rules := s.rules.mapValues fun name setting =>
      if name = id then { setting with severity := .off } else setting }

namespace Settings

variable {s : Settings} {registry : Registry} {rules : List ActiveRule}

/-- Switching a rule off leaves all names in the settings. -/
private theorem keys_switchOff (s : Settings) (id : String) :
    (s.switchOff id).rules.keys = s.rules.keys := by
  simp [switchOff, NameMap.mapValues, NameMap.keys]

/-- The settings of the rules that run, once one of them is switched off. -/
private theorem filter_entries_switchOff (s : Settings) (id : String) :
    ((s.switchOff id).rules.entries.filter fun e => e.2.severity.isEnabled) =
      (s.rules.entries.filter fun e => e.2.severity.isEnabled).filter fun e => e.1 != id := by
  simp only [switchOff, NameMap.mapValues]
  induction s.rules.entries with
  | nil => rfl
  | cons e entries ih =>
    rw [List.map_cons, List.filter_cons, ih, List.filter_cons]
    by_cases he : e.1 = id
    · cases e.2.severity.isEnabled <;> simp [he, Severity.isEnabled]
    · cases henabled : e.2.severity.isEnabled <;> simp [he, henabled]

/-- Switching a rule off takes this rule out of those that run, and no other one. -/
theorem activeRules_switchOff (h : s.activeRules registry = .ok rules) (id : String) :
    (s.switchOff id).activeRules registry = .ok (rules.filter fun r => r.id != id) := by
  unfold activeRules at h ⊢
  rw [filter_entries_switchOff]
  refine mapM_filter (fun e r hr => ?_) h
  -- a rule runs under the name that it is configured with
  simp only at hr
  split at hr
  · cases hr; rfl
  · split at hr
    · cases hr
    · cases hr; rfl

end Settings

/-- What else a linter has from its settings. -/
private theorem Linter.of_ofSettings {registry : Registry} {s : Settings} {l : Linter}
    (h : ofSettings registry s = .ok l) :
    Vocabulary.htmlWith s.elements = .ok l.vocabulary ∧ l.configured = s.rules.keys ∧
      l.locate = Document.selector? := by
  unfold ofSettings at h
  cases hv : Vocabulary.htmlWith s.elements with
  | error e => rw [hv] at h; cases h
  | ok v =>
    cases hrules : s.activeRules registry with
    | error e => rw [hv, hrules] at h; cases h
    | ok rules =>
      rw [hv, hrules] at h
      cases h
      exact ⟨rfl, rfl, rfl⟩

/-! ## Sessions -/

/-- The rules say the same at a moment, but for one of them. -/
private theorem ActiveRule.filter_flatMap_messages (id : String) (rules : List ActiveRule)
    (v : Vocabulary) (history : List Event) (m : Moment) :
    (rules.flatMap fun r => r.messages v history m).filter (·.isOther id) =
      ((rules.filter fun r => r.id != id).flatMap fun r => r.messages v history m).filter
        (·.isOther id) := by
  induction rules with
  | nil => rfl
  | cons r rules ih =>
    rw [List.flatMap_cons, List.filter_append, ih, List.filter_cons]
    split
    · rw [List.flatMap_cons, List.filter_append]
    · rename_i hid
      have hr : r.id = id := by simpa using hid
      have hnone : (r.messages v history m).filter (·.isOther id) = [] := by
        rw [List.filter_eq_nil_iff]
        intro message hmessage
        obtain ⟨-, f, -, rfl⟩ := of_mem_messages hmessage
        simp [Message.isOther, message, hr]
      rw [hnone, List.nil_append]

/-- The sessions are the same but for one rule: its messages, and whether and how it runs. -/
structure Session.SameBut (id : String) (s s' : Session) : Prop where
  vocabulary_eq : s.vocabulary = s'.vocabulary
  rules_eq : (s.rules.filter fun r => r.id != id) = s'.rules.filter fun r => r.id != id
  configured_eq : s.suppressions.configured = s'.suppressions.configured
  entries_eq : s.suppressions.entries = s'.suppressions.entries
  complaints_eq : s.suppressions.complaints = s'.suppressions.complaints
  history_eq : s.history = s'.history
  messages_eq : s.messages.filter (·.isOther id) = s'.messages.filter (·.isOther id)

namespace Session.SameBut

variable {id : String} {s s' : Session}

/-- They stay so at every moment. -/
private theorem observe (h : s.SameBut id s') (m : Moment) :
    (s.observe m).SameBut id (s'.observe m) where
  vocabulary_eq := h.vocabulary_eq
  rules_eq := h.rules_eq
  configured_eq := h.configured_eq
  entries_eq := by
    simp only [Session.observe, Suppressions.observe, h.entries_eq, h.configured_eq]
  complaints_eq := by
    simp only [Session.observe, Suppressions.observe, h.complaints_eq, h.configured_eq]
  history_eq := by
    simp only [Session.observe, h.history_eq]
  messages_eq := by
    simp only [Session.observe, List.filter_append, h.messages_eq, h.vocabulary_eq, h.history_eq]
    rw [ActiveRule.filter_flatMap_messages, h.rules_eq, ← ActiveRule.filter_flatMap_messages]

/-- Two sessions that differ in one rule differ in that rule after all moments. -/
private theorem foldl (h : s.SameBut id s') (ms : List Moment) :
    (ms.foldl Session.observe s).SameBut id (ms.foldl Session.observe s') := by
  induction ms generalizing s s' with
  | nil => exact h
  | cons m ms ih => exact ih (h.observe m)

/-- Resolving takes the same messages away, complains about the same directives, and warns of the
same overlaps. -/
theorem filter_resolve (h : s.SameBut id s') :
    s.resolve.filter (·.isOther id) = s'.resolve.filter (·.isOther id) := by
  -- the reports on suppressions without effect are all that depends on more than this
  have hreports : ∀ (sup : Suppressions) (messages : List Message),
      (sup.reports messages).filter (·.isOther id) = [] := by
    intro sup messages
    rw [List.filter_eq_nil_iff]
    intro m hm
    unfold Suppressions.reports at hm
    split at hm
    · cases hm
    · obtain ⟨found, -, hseen⟩ := List.mem_filterMap.mp hm
      obtain ⟨-, hseen⟩ := Option.ite_none_right_eq_some.mp hseen
      obtain ⟨entry, -, rfl⟩ := Option.map_eq_some_iff.mp hseen
      simp [Message.isOther, Suppressions.unusedReport]
  have hvisible : ∀ p : Message → Bool,
      (s.messages.filter p).filter (·.isOther id) =
        (s'.messages.filter p).filter (·.isOther id) := by
    intro p
    have hcomm : ∀ ms : List Message,
        (ms.filter p).filter (·.isOther id) = (ms.filter (·.isOther id)).filter p := by
      intro ms
      rw [List.filter_filter, List.filter_filter]
      exact List.filter_congr fun m _ => Bool.and_comm _ _
    rw [hcomm, h.messages_eq, ← hcomm]
  simp only [Session.resolve, Suppressions.resolve_eq, List.filter_append, hreports, h.entries_eq,
    h.complaints_eq, hvisible]

end Session.SameBut

/-- Two observers that agree in some way at every moment agree in the end, and see the same
outcome. -/
private theorem observeParsing_congr {σ τ : Type} {R : σ → τ → Prop} {observe : σ → Moment → σ}
    {observe' : τ → Moment → τ}
    (hR : ∀ {s t} (ms : List Moment), R s t → R (ms.foldl observe s) (ms.foldl observe' t)) {s : σ}
    {t : τ} (h : R s t) (v : Vocabulary) (source : String) :
    (observeParsing v observe s source).1 = (observeParsing v observe' t source).1 ∧
      R (observeParsing v observe s source).2 (observeParsing v observe' t source).2 := by
  simp only [observeParsing, Construction.pushAll_eq_foldl]
  split
  · exact ⟨rfl, hR _ h⟩
  · exact ⟨rfl, hR _ (hR _ h)⟩

/-! ## Reports -/

/-- The order by which a report is sorted is one. -/
theorem Message.offset_le_trans (a b c : Message)
    (hab : decide (a.location.offset ≤ b.location.offset) = true)
    (hbc : decide (b.location.offset ≤ c.location.offset) = true) :
    decide (a.location.offset ≤ c.location.offset) = true := by
  simp only [decide_eq_true_eq] at *
  omega

/-- Of two messages one does not come after the other. -/
theorem Message.offset_le_total (a b : Message) :
    (decide (a.location.offset ≤ b.location.offset) ||
      decide (b.location.offset ≤ a.location.offset)) = true := by
  simp only [Bool.or_eq_true, decide_eq_true_eq]
  omega

/-- Some of the messages in the order of their places are these messages in the order of theirs. -/
theorem filter_sortByOffset (p : Message → Bool) (messages : List Message) :
    (sortByOffset messages).filter p = sortByOffset (messages.filter p) := by
  -- a message is sorted in after those before its place, and before all others
  have hcons : ∀ (m : Message) (ms : List Message), ∃ before after,
      sortByOffset (m :: ms) = before ++ m :: after ∧ sortByOffset ms = before ++ after ∧
      (∀ x ∈ before, decide (m.location.offset ≤ x.location.offset) = false) ∧
      ∀ x ∈ after, decide (m.location.offset ≤ x.location.offset) = true := by
    intro m ms
    obtain ⟨before, after, heq, heq', hbefore⟩ :=
      List.mergeSort_cons Message.offset_le_trans Message.offset_le_total m ms
    have hsorted :=
      List.pairwise_mergeSort Message.offset_le_trans Message.offset_le_total (m :: ms)
    rw [heq] at hsorted
    have hafter := (List.pairwise_cons.mp (List.pairwise_append.mp hsorted).2.1).1
    exact ⟨before, after, heq, heq', fun x hx => by simpa using hbefore x hx, hafter⟩
  induction messages with
  | nil => simp [sortByOffset]
  | cons m ms ih =>
    obtain ⟨before, after, hsort, hsort', hbefore, hafter⟩ := hcons m ms
    rw [hsort'] at ih
    rw [hsort, List.filter_append, List.filter_cons, List.filter_cons]
    split
    · obtain ⟨before', after', hm, hms, hbefore', hafter'⟩ := hcons m (ms.filter p)
      rw [hms, List.filter_append] at ih
      obtain ⟨heq, heq'⟩ := append_inj_of_cut ih
        (fun x hx => hbefore x (List.mem_filter.mp hx).1)
        (fun x hx => hafter x (List.mem_filter.mp hx).1)
        hbefore' hafter'
      rw [hm, heq, heq']
    · rw [← ih, List.filter_append]

/-- What is reported of some of the messages does not depend on the others. -/
private theorem DocumentReport.filter_ofMessages (p : Message → Bool) (file : String)
    (d : Option Document) (locate : Locator) (messages : List Message) :
    (ofMessages file d locate messages).messages.filter (fun m => p m.message) =
      (ofMessages file d locate (messages.filter p)).messages := by
  simp only [ofMessages, List.filter_map, ← filter_sortByOffset]
  rfl

/-- Whatever the source, two settings that are the same once a rule is switched off in both lead to
the same report, but for the messages of this rule and the reports on suppressions without effect:
the messages that are left are the same, in the same order. -/
theorem check_filter_isOther {registry : Registry} {a b : Settings} {id : String}
    (h : a.switchOff id = b.switchOff id) {l l' : Linter}
    (hl : Linter.ofSettings registry a = .ok l) (hl' : Linter.ofSettings registry b = .ok l')
    (file source : String) :
    (l.check file source).messages.filter (·.message.isOther id) =
      (l'.check file source).messages.filter (·.message.isOther id) := by
  obtain ⟨hv, hc, hlocate⟩ := Linter.of_ofSettings hl
  obtain ⟨hv', hc', hlocate'⟩ := Linter.of_ofSettings hl'
  -- with the rule switched off the two settings are one, which fixes everything but the rule
  have hvocabulary : l.vocabulary = l'.vocabulary := by
    have helements : (a.switchOff id).elements = (b.switchOff id).elements := by rw [h]
    rw [show a.elements = b.elements from helements, hv'] at hv
    exact (Except.ok.inj hv).symm
  have hrules : (l.rules.filter fun r => r.id != id) = l'.rules.filter fun r => r.id != id := by
    have hactive := Settings.activeRules_switchOff (Linter.activeRules_of_ofSettings hl) id
    rw [h, Settings.activeRules_switchOff (Linter.activeRules_of_ofSettings hl') id] at hactive
    exact (Except.ok.inj hactive).symm
  have hconfigured : l.configured = l'.configured := by
    rw [hc, hc', ← Settings.keys_switchOff a id, h, Settings.keys_switchOff]
  have hsession : l.session.SameBut id l'.session :=
    ⟨hvocabulary, hrules, hconfigured, rfl, rfl, rfl, rfl⟩
  -- two sessions that differ in the one rule still do after the whole run
  obtain ⟨hresult, hsame⟩ := observeParsing_congr (R := Session.SameBut id) (fun ms h => h.foldl ms)
    hsession l.vocabulary source
  have hwatch : l.watch source = observeParsing l.vocabulary Session.observe l.session source := rfl
  have hwatch' : l'.watch source =
      observeParsing l.vocabulary Session.observe l'.session source := by
    rw [hvocabulary]
    rfl
  unfold Linter.check
  rw [hwatch, hwatch', hlocate, hlocate']
  generalize observeParsing l.vocabulary Session.observe l.session source = one at hresult hsame
  generalize observeParsing l.vocabulary Session.observe l'.session source = other at hresult hsame
  obtain ⟨result, session⟩ := one
  obtain ⟨_, session'⟩ := other
  subst hresult
  cases result with
  | error e => rfl
  | ok d =>
    simp only [DocumentReport.filter_ofMessages, hsame.filter_resolve]

/-- Turned on, `no-inline-style` has a message, and a suppression of it that takes nothing away is
reported; what `attr-quotes` says stays. -/
theorem check_filter_isOther_style :
    let settings (severity : Severity) : Settings :=
      ⟨.ofList [("attr-quotes", { severity := .error }), ("no-inline-style", { severity }),
        (noUnusedDisable, { severity := .warning })], .empty⟩
    let source := "<!-- [html-validate-disable-next no-inline-style] --><b></b><i style=a></i>"
    ∃ l l', Linter.ofSettings .standard (settings .off) = .ok l ∧
      Linter.ofSettings .standard (settings .error) = .ok l' ∧
      (settings .off).switchOff "no-inline-style" = (settings .error).switchOff "no-inline-style" ∧
      (l.watch source).2.resolve.map Message.rule = [some "attr-quotes"] ∧
      (l'.watch source).2.resolve.map Message.rule =
        [some "attr-quotes", some "no-inline-style", some noUnusedDisable] ∧
      (l.check "page" source).messages.filter (·.message.isOther "no-inline-style") =
        (l'.check "page" source).messages.filter (·.message.isOther "no-inline-style") := by
  intro settings source
  have hsame : (settings .off).switchOff "no-inline-style" =
      (settings .error).switchOff "no-inline-style" := rfl
  have hwatched :
      ((Linter.ofSettings .standard (settings .off)).toOption.map fun l =>
        (l.watch source).2.resolve.map Message.rule) = some [some "attr-quotes"] ∧
      ((Linter.ofSettings .standard (settings .error)).toOption.map fun l =>
        (l.watch source).2.resolve.map Message.rule) =
          some [some "attr-quotes", some "no-inline-style", some noUnusedDisable] := by
    rw [Linter.ofSettings_of_html rfl, Linter.ofSettings_of_html rfl]
    decide +kernel
  obtain ⟨l, hl, hrules⟩ := exists_of_map_toOption hwatched.1
  obtain ⟨l', hl', hrules'⟩ := exists_of_map_toOption hwatched.2
  exact ⟨l, l', hl, hl', hsame, hrules, hrules', check_filter_isOther hsame hl hl' "page" source⟩

end HtmlLint
