import HtmlLint.Proofs.Construction.Shown
import HtmlLint.Proofs.Linter.Findings
import HtmlLint.Proofs.Suppression.Resolution

/-!
# Suppressing for an element

A directive may disable rules for the next element.  What it takes away is told by bytes, what is
meant is told by the tree: no message about the element or about anything below it is to be seen.
The two come to the same, because a message about a node lies in the start tag of that node
(`Finding.Concerns.tagCovers`), and a byte of a start tag lies in the ranges of the nodes around it
and in no others.  `watch_isScoped` says so of every source and all settings.

The rule `close-order` is not meant: it speaks of an element where an end tag stands that belongs to
another one.
-/

namespace HtmlLint

/-- The element that a directive inside `parent` is for, if it is for the next one and these are the
events after it: the next element in `parent`, or else the element whose start tag closes
`parent`. -/
def Document.nextElement? (d : Document) (parent : NodeId) (later : List Event) : Option NodeId :=
  (later.findSome? (Event.opensIn? d parent)).or (later.findSome? (Event.startedAfter? parent))

/-- In a session about a document, with these events, what is disabled for an element is disabled
for all that the element encloses and for nothing else. -/
structure Session.IsScoped (s : Session) (configured : List String) (d : Document)
    (es : List Event) : Prop where
  /-- a message about a node lies in the range of a node exactly if that one encloses the node -/
  contains_iff : ∀ m ∈ s.messages, m.rule ≠ some "close-order" → ∀ i, m.node = some i →
    i < d.size ∧ ∀ n, (d.range? n).any (·.contains m.location.offset) = true ↔ d.Encloses n i
  /-- a directive for the next element suppresses its rule, or all rules, for the range of that
  element, and then no message of the rule about something that the element encloses is left -/
  next : ∀ before rules parent location later n subject place rule,
    es = before ++ .directive .disableNext rules parent location :: later →
    d.nextElement? parent later = some n → (subject, place) ∈ subjects configured rules location →
    subject = none ∨ subject = some rule → rule ≠ "close-order" →
    (∃ sup ∈ s.suppressions.entries, sup.rule = subject ∧ sup.action = .disableNext ∧
      sup.location = place ∧ sup.coverage? = d.range? n) ∧
    ∀ m ∈ s.resolve, m.rule = some rule → ∀ i, m.node = some i → ¬ d.Encloses n i

/-! ## Places of findings -/

/-- A finding with a place of its own is there. -/
private theorem Finding.place_of_location {f : Finding} {l : Location} (h : f.location = some l)
    (m : Moment) :
    f.place m = l := by
  simp only [Finding.place, h]

/-- A finding without one is where the event is. -/
private theorem Finding.place_of_event {f : Finding} {m : Moment} {l : Location}
    (h : f.location = none) (he : m.event.location? = some l) : f.place m = l := by
  simp only [Finding.place, h, he]

/-- What concerns a node has its place in the start tag of the node. -/
theorem Finding.Concerns.tagCovers {f : Finding} {m : Moment} {final : Document} (h : f.Concerns m)
    (hm : m.TagsIn final) {i : Nat} (hi : f.node = some i) :
    final.TagCovers i (f.place m).offset := by
  have hevent := hm.event
  cases h with
  | document hnone _ =>
    rw [hnone] at hi
    cases hi
  | opened he hn hl =>
    rw [hn] at hi
    cases hi
    rw [Finding.place_of_event hl (by rw [he]; rfl)]
    rw [he] at hevent
    exact hevent
  | element hshows hn hl =>
    rw [hn] at hi
    cases hi
    rw [Finding.place_of_location hl]
    obtain ⟨previous, kind, location, he⟩ | ⟨location, he⟩ | ⟨j, n, hj, helement, hid⟩ := hshows
    · rw [he] at hevent
      exact hevent
    · rw [he] at hevent
      exact hevent
    · -- an element of the document has its own number
      obtain ⟨hj', hcovers⟩ := hm.element j n hj helement
      obtain rfl : j = i := hj'.symm.trans hid
      rwa [Document.node_of_get? hj]
  | attr he hn hl =>
    rw [hn] at hi
    cases hi
    rw [he] at hevent
    -- an attribute is reported at its name or at its value
    obtain hnone | ⟨value, hvalue, hown⟩ := hl
    · rw [Finding.place_of_event hnone (by rw [he]; rfl)]
      exact hevent.1
    · rw [Finding.place_of_location hown]
      exact hevent.2 value hvalue

/-! ## Directives for the next element -/

/-- What a directive disables is declared for each of its subjects. -/
private theorem mem_declared {configured : List String} (d : Document) {action : DirectiveAction}
    (haction : action ≠ .enable) {rules : List DirectiveRule} (parent : NodeId)
    {location : Location} {subject : Option String} {place : Location}
    (h : (subject, place) ∈ subjects configured rules location) (before later : List Event) :
    ⟨subject, action, place, d.covered? subject action parent location later⟩ ∈
      declared configured d (before ++ .directive action rules parent location :: later) := by
  induction before with
  | nil =>
    rw [List.nil_append, declared, if_neg haction]
    exact List.mem_append_left _ (List.mem_map.mpr ⟨_, h, rfl⟩)
  | cons e before ih =>
    cases e with
    | directive action' rules' parent' location' =>
      rw [List.cons_append, declared]
      exact List.mem_append_right _ ih
    | _ => exact ih

/-- A message that is about a node and comes from a rule is not about directives. -/
private theorem Suppressions.IsDiagnostic.not_about {s : Suppressions} {es : List Event}
    {messages : List Message} {m : Message} (h : s.IsDiagnostic es messages m) {rule : String}
    (hrule : m.rule = some rule) {i : NodeId} (hi : m.node = some i) : False := by
  cases h with
  | unknown | invalid | overlap => cases hrule
  | unused => cases hi

/-! ## Sessions -/

section Watching

variable {settings : Settings} {l : Linter} {ms : List Moment} {d : Document} {length : Nat}

/-- A message about a node lies in the ranges of the nodes that enclose the node. -/
private theorem Linter.contains_iff_encloses (hl : ofSettings .standard settings = .ok l)
    (htree : d.IsTree) (hlaminar : d.IsLaminar length) (htags : ∀ m ∈ ms, m.TagsIn d)
    {message : Message} (h : message ∈ (ms.foldl Session.observe l.session).messages)
    (hrule : message.rule ≠ some "close-order") {i : Nat} (hi : message.node = some i) :
    i < d.size ∧ ∀ n, (d.range? n).any (·.contains message.location.offset) = true ↔
    d.Encloses n i := by
  obtain ⟨m, hm, r, -, f, rfl, hconcerns | ⟨hid, -⟩⟩ := of_mem_messages hl h
  · obtain ⟨hroot, x, hx, hstart, hstop⟩ := hconcerns.tagCovers (htags m hm) hi
    have hlt : i < d.size := Document.lt_size_of_get? hx
    refine ⟨hlt, fun n => ?_⟩
    rw [Option.any_eq_true]
    constructor
    · rintro ⟨range, hrange, hcontains⟩
      exact (hlaminar.contains_iff htree hx hroot hrange hstart hstop).mp hcontains
    · intro hencloses
      -- a node that encloses another one is there
      obtain ⟨range, hrange⟩ := hlaminar.exists_range? (Nat.lt_of_le_of_lt (hencloses.le htree) hlt)
      exact ⟨range, hrange,
        (hlaminar.contains_iff htree hx hroot hrange hstart hstop).mpr hencloses⟩
  · exact absurd (congrArg some hid) hrule

/-- Where a suppression of a rule covers the range of an element, no message of the rule is left
about what the element encloses. -/
private theorem Linter.not_encloses_of_mem_resolve (hl : ofSettings .standard settings = .ok l)
    (htree : d.IsTree) (hlaminar : d.IsLaminar length) (htags : ∀ m ∈ ms, m.TagsIn d)
    {sup : Suppression} (hsup : sup ∈ (ms.foldl Session.observe l.session).suppressions.entries)
    {rule : String} (happlies : sup.appliesTo rule = true) (hrule : rule ≠ "close-order") {n : Nat}
    (hcoverage : sup.coverage? = d.range? n) {message : Message}
    (h : message ∈ (ms.foldl Session.observe l.session).resolve)
    (hmessage : message.rule = some rule) {i : Nat} (hi : message.node = some i) :
    ¬ d.Encloses n i := by
  intro hencloses
  obtain ⟨diagnostics, heq, hdiagnostics⟩ := Suppressions.resolve_eq_append
    (Session.suppressions_foldl l.session ms) (ms.foldl Session.observe l.session).messages
  rw [Session.resolve, heq] at h
  cases List.mem_append.mp h with
  | inr h => exact (hdiagnostics message h).not_about hmessage hi
  | inl h =>
    obtain ⟨hmem, hunreached⟩ := List.mem_filter.mp h
    have hother : message.rule ≠ some "close-order" := by
      rw [hmessage]
      exact mt Option.some.inj hrule
    have hcontains :=
      ((contains_iff_encloses hl htree hlaminar htags hmem hother hi).2 n).mpr hencloses
    -- so the suppression reaches the message
    have hreaches : sup.reaches message = true := by
      simp only [Suppression.reaches, hmessage, Option.any_some, happlies,
        Suppression.covers, hcoverage, hcontains, Bool.and_self]
    have hany : (ms.foldl Session.observe l.session).suppressions.entries.any
        (·.reaches message) = true :=
      List.any_eq_true.mpr ⟨sup, hsup, hreaches⟩
    rw [hany] at hunreached
    cases hunreached

end Watching

/-- Whatever the settings, the messages about a source that can be cut into tokens are suppressed
exactly for the elements that directives are for. -/
theorem watch_isScoped {settings : Settings} {l : Linter}
    (hl : Linter.ofSettings .standard settings = .ok l) {source : String}
    (h : (tokenize source).failure = none) :
    ∃ d es session, parse l.vocabulary source = .ok (d, es) ∧ l.watch source = (.ok d, session) ∧
      session.IsScoped l.configured d es := by
  obtain ⟨ms, d, k, hk, hcourse, hrecord⟩ := record_course h l.vocabulary
  obtain ⟨htree, hlaminar⟩ := hcourse.isLaminar hk
  have htags := hcourse.tagsIn hk
  generalize (⟨.domLoad, .ofLength (byteLength source.toList)⟩ :: ms ++ [⟨.domReady, d.ended⟩] :
    List Moment) = moments at hrecord htags
  generalize d.ended = final at hrecord htree hlaminar htags
  have hwatch : l.watch source = (.ok final, moments.foldl Session.observe l.session) := by
    rw [Linter.watch, observeParsing_eq h, hrecord]
  -- the suppressions watch the same moments
  obtain ⟨d', es, s, hparse, hobserve, -, -, hagree⟩ :=
    Suppressions.agree_of_parsing l.vocabulary l.configured l.enabled h
  rw [observeParsing_eq h, hrecord] at hobserve
  cases hobserve
  refine ⟨final, es, _, hparse, hwatch, ?_, ?_⟩
  · intro m hm hrule i hi
    exact Linter.contains_iff_encloses hl htree hlaminar htags hm hrule hi
  · intro before rules parent location later n subject place rule hes hnext hsubject hrule hother
    have haction : DirectiveAction.disableNext ≠ .enable := by decide
    have hdeclared := mem_declared final haction parent hsubject before later
    rw [← hes, ← hagree.disabling_eq] at hdeclared
    obtain ⟨sup, hsup, hdisabling⟩ := List.mem_map.mp hdeclared
    have hsup_rule : sup.rule = subject := congrArg Disabling.rule hdisabling
    have hcoverage : sup.coverage? = final.range? n := by
      have hcovered : sup.coverage? = (final.nextElement? parent later).bind final.range? :=
        congrArg Disabling.coverage hdisabling
      rw [hcovered, hnext, Option.bind_some]
    have happlies : sup.appliesTo rule = true := by
      unfold Suppression.appliesTo
      rw [hsup_rule]
      obtain rfl | rfl := hrule
      · rfl
      · simp
    have hentry : sup ∈ (moments.foldl Session.observe l.session).suppressions.entries := by
      rw [Session.suppressions_foldl]
      exact hsup
    refine ⟨⟨sup, hentry, hsup_rule, congrArg Disabling.action hdisabling,
      congrArg Disabling.location hdisabling, hcoverage⟩, fun m hm hmessage i hi => ?_⟩
    exact Linter.not_encloses_of_mem_resolve hl htree hlaminar htags hentry happlies hother
      hcoverage hm hmessage hi

/-- A directive before a paragraph: what is wrong with the paragraph and with the element in it is
taken away, what is wrong with the element after it stays. -/
theorem watch_isScoped_paragraph :
    let settings : Settings := ⟨.ofList [("no-inline-style", { severity := .error })], .empty⟩
    let source := "<!-- [html-validate-disable-next no-inline-style] -->" ++
      "<p style=a>x<b style=b></b></p><i style=c></i>"
    ∃ l, Linter.ofSettings .standard settings = .ok l ∧ (tokenize source).failure = none ∧
      (l.watch source).2.messages.map Message.node = [some 1, some 3, some 4] ∧
      (l.watch source).2.resolve.map Message.node = [some 4] ∧
      ∃ d es session, parse l.vocabulary source = .ok (d, es) ∧ l.watch source = (.ok d, session) ∧
        session.IsScoped l.configured d es := by
  intro settings source
  have hscan : (tokenize source).failure = none := by decide +kernel
  have hwatched : ((Linter.ofSettings .standard settings).toOption.map fun l =>
      ((l.watch source).2.messages.map Message.node, (l.watch source).2.resolve.map Message.node)) =
        some ([some 1, some 3, some 4], [some 4]) := by
    rw [Linter.ofSettings_of_html rfl]
    decide +kernel
  cases hl : Linter.ofSettings .standard settings with
  | error e => rw [hl] at hwatched; cases hwatched
  | ok l =>
    rw [hl] at hwatched
    obtain ⟨hmessages, hresolve⟩ := Prod.mk.inj (Option.some.inj hwatched)
    exact ⟨l, rfl, hscan, hmessages, hresolve, watch_isScoped hl hscan⟩

end HtmlLint
