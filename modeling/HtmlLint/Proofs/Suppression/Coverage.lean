import HtmlLint.Proofs.Construction.Ranges
import HtmlLint.Proofs.Suppression.Reach

/-!
# What the suppressions of a source cover

`declared` lists what the directives of a source disable, read off the finished document and the
whole list of events.  The suppressions that watch the making of the document come to the same list:
`coverage_eq_declared`.
-/

namespace HtmlLint

/-- A rule, or all rules, that a directive disables; where it says so, and for which bytes. -/
structure Disabling where
  rule : Option String
  action : DirectiveAction
  location : Location
  coverage : Option ByteRange
  deriving DecidableEq

/-- The rules that a directive is about, each with the place where it is named: all rules if it
names none, and otherwise those of its rules that are configured. -/
def subjects (configured : List String) (rules : List DirectiveRule) (location : Location) :
    List (Option String × Location) :=
  if rules = [] then [(none, location)]
  else (rules.filter (·.id ∈ configured)).map fun r => (some r.id, r.location)

/-- What the directives among the events disable, in their order. -/
def declared (configured : List String) (d : Document) : List Event → List Disabling
  | [] => []
  | .directive action rules parent location :: later =>
    (if action = .enable then []
      else (subjects configured rules location).map fun (rule, place) =>
        ⟨rule, action, place, d.covered? rule action parent location later⟩) ++
      declared configured d later
  | _ :: later => declared configured d later

namespace Suppression

/-- What a suppression disables, as far as it is known. -/
def disabling (s : Suppression) : Disabling :=
  ⟨s.rule, s.action, s.location, s.coverage?⟩

/-- What the second suppression covers starts after the place where the first one names its rule. -/
def NamedBefore (s s' : Suppression) : Prop :=
  s.rule.isSome → ∀ range, s'.coverage? = some range → s.location.offset < range.start

/-- What the first suppression covers does not start after what the second one covers, unless the
first one is about the next element. -/
def StartsFirst (s s' : Suppression) : Prop :=
  s.action ≠ .disableNext → ∀ a b, s.coverage? = some a → s'.coverage? = some b → a.start ≤ b.start

end Suppression

/-- The suppressions of a document of which `es` are the events: they cover what is declared, from
byte `low` on and within the source, none covers the place where an earlier one names its rule, they
start in their order unless they are about the next element, and none has taken a message away
yet. -/
structure Suppressions.Agree (configured : List String) (d : Document) (es : List Event) (low : Nat)
    (sups : List Suppression) : Prop where
  disabling_eq : sups.map Suppression.disabling = declared configured d es
  liesBetween : ∀ sup ∈ sups, ∀ range, sup.coverage? = some range →
    range.LiesBetween low d.sourceLength
  namedBefore : sups.Pairwise Suppression.NamedBefore
  startsFirst : sups.Pairwise Suppression.StartsFirst
  unmatched : ∀ sup ∈ sups, sup.matched = false

/-! ## All suppressions -/

/-- Apart from directives, no moment of a move begins a suppression; a directive stands in the
current node. -/
private theorem Move.directive_cases {s t : Stage} {ms : List Moment} (hm : Move s ms t) :
    (∀ m ∈ ms, ∀ action rules parent location, m.event ≠ .directive action rules parent location) ∨
    ∃ d ids action rules location, s = ⟨d, ids, none⟩ ∧ t = ⟨d, ids, none⟩ ∧
      ms = [⟨.directive action rules (ids.headD rootId) location, d⟩] := by
  cases hm with
  | @remark d ids e he =>
    cases e with
    | directive action rules parent location =>
      obtain rfl : parent = ids.headD rootId := he
      exact .inr ⟨d, ids, action, rules, location, rfl, rfl, rfl⟩
    | parseError | doctype | invalidDirective => exact .inl (by simp)
    | domLoad | tagOpen | tagClose | elementReady | attr | domReady => exact he.elim
  | store | widen | text | announce | close | place => exact .inl (by simp)

/-- Other events declare nothing. -/
private theorem declared_append {configured : List String} {d : Document} {es later : List Event}
    (h : ∀ e ∈ es, ∀ action rules parent location, e ≠ .directive action rules parent location) :
    declared configured d (es ++ later) = declared configured d later := by
  induction es with
  | nil => rfl
  | cons e es ih =>
    rw [List.cons_append, declared]
    · exact ih fun e' he' => h e' (List.mem_cons_of_mem _ he')
    · exact h e (List.mem_cons_self ..)

/-- The last event does not change what is covered. -/
private theorem Document.covered?_append_domReady (d : Document) (rule : Option String)
    (action : DirectiveAction) (parent : NodeId) (location : Location) (es : List Event) :
    d.covered? rule action parent location (es ++ [.domReady]) =
      d.covered? rule action parent location es := by
  cases action <;>
    simp [covered?, List.findSome?_append, List.findSome?_cons, Event.enablesAt?, Event.opensIn?,
      Event.startedAfter?]

namespace Suppressions

/-- The suppressions that the moments begin, each as it is after the last of them. -/
def arising (configured : List String) : List Moment → List Suppression
  | [] => []
  | m :: later => (begun configured m.event).map (·.after later) ++ arising configured later

/-- A directive begins one suppression for each of its rules. -/
private theorem begun_directive {action : DirectiveAction} {parent : NodeId} {location : Location}
    {reach : Reach} (h : Suppression.firstReach? action parent location = some reach)
    (configured : List String) (rules : List DirectiveRule) :
    begun configured (.directive action rules parent location) =
      (subjects configured rules location).map fun (rule, place) =>
        { rule, action, location := place, reach } := by
  simp only [begun, h, subjects]
  cases rules with
  | nil => rfl
  | cons r rules => simp [Function.comp_def]

/-- What a suppression has from the directive that begins it. -/
theorem of_mem_begun {configured : List String} {action : DirectiveAction}
    {rules : List DirectiveRule} {parent : NodeId} {location : Location} {sup : Suppression}
    (h : sup ∈ begun configured (.directive action rules parent location)) :
    Suppression.firstReach? action parent location = some sup.reach ∧
      (sup.rule.isSome → ∃ r ∈ rules, sup.location = r.location) ∧ sup.action = action ∧
      sup.matched = false := by
  simp only [begun] at h
  split at h
  · cases h
  · rename_i reach hreach
    split at h
    · rw [List.mem_singleton.mp h]
      exact ⟨hreach, nofun, rfl, rfl⟩
    · obtain ⟨r, hr, rfl⟩ := List.mem_map.mp h
      exact ⟨hreach, fun _ => ⟨r, (List.mem_filter.mp hr).1, rfl⟩, rfl, rfl⟩

/-- Where the suppressions of a directive cover what it covers, they are what it declares. -/
private theorem declared_directive {configured : List String} {d : Document}
    {action : DirectiveAction} {rules : List DirectiveRule} {parent : NodeId} {location : Location}
    {es : List Event} {ms : List Moment}
    (h : ∀ sup ∈ begun configured (.directive action rules parent location),
      (sup.after ms).coverage? = d.covered? sup.rule action parent location es) :
    ((begun configured (.directive action rules parent location)).map (·.after ms)).map
      Suppression.disabling ++
        declared configured d es =
      declared configured d (.directive action rules parent location :: es) := by
  rw [declared]
  congr 1
  cases hreach : Suppression.firstReach? action parent location with
  | none =>
    -- a directive that enables rules begins no suppression
    have haction : action = .enable := by cases action <;> simp_all [Suppression.firstReach?]
    rw [if_pos haction]
    simp only [begun, hreach, List.map_nil]
  | some reach =>
    have haction : action ≠ .enable := by rintro rfl; cases hreach
    rw [begun_directive hreach] at h ⊢
    rw [if_neg haction, List.map_map, List.map_map]
    refine List.map_congr_left fun subject hsubject => ?_
    have hcovers := h _ (List.mem_map_of_mem hsubject)
    simp only [Function.comp_apply, Suppression.disabling, Suppression.rule_after,
      Suppression.action_after, Suppression.location_after, hcovers]

/-- Other events begin none. -/
private theorem begun_eq_nil {configured : List String} {e : Event}
    (h : ∀ action rules parent location, e ≠ .directive action rules parent location) :
    begun configured e = [] := by
  cases e with
  | directive action rules parent location => exact absurd rfl (h action rules parent location)
  | _ => rfl

/-- Moments without a directive bring no suppressions. -/
private theorem arising_append {configured : List String} {ms : List Moment}
    (h : ∀ m ∈ ms, ∀ action rules parent location, m.event ≠ .directive action rules
      parent location)
    (later : List Moment) : arising configured (ms ++ later) = arising configured later := by
  induction ms with
  | nil => rfl
  | cons m ms ih =>
    rw [List.cons_append, arising, begun_eq_nil (h m (List.mem_cons_self ..))]
    exact ih fun m' hm' => h m' (List.mem_cons_of_mem _ hm')

/-- Suppressions do not see each other: each goes its own way from the moment that begins it. -/
private theorem entries_foldl (s : Suppressions) (ms : List Moment) :
    (ms.foldl observe s).entries = s.entries.map (·.after ms) ++ arising s.configured ms := by
  induction ms generalizing s with
  | nil => simp [arising]
  | cons m ms ih =>
    rw [List.foldl_cons, ih]
    simp [observe, arising, Suppression.after]

/-- What a directive begins comes before what later ones begin. -/
private theorem Agree.cons {configured : List String} {d : Document} {action : DirectiveAction}
    {rules : List DirectiveRule} {parent : NodeId} {location : Location} {es : List Event}
    {low : Nat} {sups later : List Suppression} (h : Agree configured d es location.stop later)
    (hlow : low ≤ location.offset)
    (heq : sups.map Suppression.disabling ++ declared configured d es =
      declared configured d (.directive action rules parent location :: es))
    (hlies : ∀ sup ∈ sups, ∀ range, sup.coverage? = some range →
      range.LiesBetween location.stop d.sourceLength)
    (hstarts : ∀ sup ∈ sups, sup.action ≠ .disableNext → ∀ range, sup.coverage? = some range →
      range.start = location.stop)
    (hnamed : ∀ sup ∈ sups, sup.rule.isSome → sup.location.offset < location.stop)
    (hunmatched : ∀ sup ∈ sups, sup.matched = false) :
    Agree configured d (.directive action rules parent location :: es) low (sups ++ later) := by
  have hlow' : low ≤ location.stop := Nat.le_trans hlow (Nat.le_add_right _ _)
  -- all of them start to cover after the directive has ended
  have hstop : ∀ sup ∈ sups ++ later, ∀ range, sup.coverage? = some range →
      location.stop ≤ range.start := by
    intro sup hsup range hrange
    cases List.mem_append.mp hsup with
    | inl hsup => exact (hlies sup hsup range hrange).low_le
    | inr hsup => exact (h.liesBetween sup hsup range hrange).low_le
  have hafter : ∀ sup ∈ sups, ∀ sup' ∈ sups ++ later, sup.NamedBefore sup' := by
    intro sup hsup sup' hsup' hrule range hrange
    exact Nat.lt_of_lt_of_le (hnamed sup hsup hrule) (hstop sup' hsup' range hrange)
  have hfirst : ∀ sup ∈ sups, ∀ sup' ∈ sups ++ later, sup.StartsFirst sup' := by
    intro sup hsup sup' hsup' haction a b ha hb
    rw [hstarts sup hsup haction a ha]
    exact hstop sup' hsup' b hb
  refine ⟨?_, ?_, ?_, ?_, fun sup hsup =>
    (List.mem_append.mp hsup).elim (hunmatched sup) (h.unmatched sup)⟩
  · rw [List.map_append, h.disabling_eq, heq]
  · intro sup hsup range hrange
    cases List.mem_append.mp hsup with
    | inl hsup => exact (hlies sup hsup range hrange).mono hlow'
    | inr hsup => exact (h.liesBetween sup hsup range hrange).mono hlow'
  · refine List.pairwise_append.mpr ⟨?_, h.namedBefore, fun sup hsup sup' hsup' =>
      hafter sup hsup sup' (List.mem_append_right _ hsup')⟩
    exact List.pairwise_of_forall_mem_list fun sup hsup sup' hsup' =>
      hafter sup hsup sup' (List.mem_append_left _ hsup')
  · refine List.pairwise_append.mpr ⟨?_, h.startsFirst, fun sup hsup sup' hsup' =>
      hfirst sup hsup sup' (List.mem_append_right _ hsup')⟩
    exact List.pairwise_of_forall_mem_list fun sup hsup sup' hsup' =>
      hfirst sup hsup sup' (List.mem_append_left _ hsup')

/-- The suppressions of a whole run agree with the finished document. -/
private theorem arising_agree {s t : Stage} {ms : List Moment} {final : Document} (hr : Run s ms t)
    (h : s.Sound) (ht : ∀ id, ¬ t.Awaits id) (hd : t.document.GrowsTo final)
    (horder : ms.Pairwise Moment.Precedes) (hends : ∀ m ∈ ms, m.EndsBy final.sourceLength)
    (hlaminar : final.IsLaminar final.sourceLength) {low : Nat} (hlow : ∀ m ∈ ms, m.NotBefore low)
    (configured : List String) :
    Agree configured final (ms.map Moment.event ++ [.domReady]) low
      (arising configured (ms ++ [⟨.domReady, final⟩])) := by
  induction hr generalizing low with
  | done s =>
    exact ⟨rfl, by simp [arising, begun], .nil, .nil, by simp [arising, begun]⟩
  | @move s t u ms later first rest ih =>
    obtain ⟨-, horder', hprecedes⟩ := List.pairwise_append.mp horder
    have hends' : ∀ m ∈ later, m.EndsBy final.sourceLength :=
      fun m hm => hends m (List.mem_append_right _ hm)
    rw [List.map_append, List.append_assoc, List.append_assoc]
    -- a move that gives no directive begins no suppression and passes on what comes later
    obtain hquiet | ⟨d, ids, action, rules, location, rfl, rfl, rfl⟩ := first.directive_cases
    · have hquiet' : ∀ e ∈ ms.map Moment.event, ∀ action rules parent location,
          e ≠ .directive action rules parent location := by simpa using hquiet
      have hagree :=
        ih (h.move first) ht hd horder' hends' fun m hm => hlow m (List.mem_append_right _ hm)
      rw [arising_append hquiet]
      exact ⟨by rw [declared_append hquiet', hagree.disabling_eq], hagree.liesBetween,
        hagree.namedBefore, hagree.startsFirst, hagree.unmatched⟩
    · have hp : ids.headD rootId = rootId ∨ ids.headD rootId ∈ ids := by
        cases ids with
        | nil => exact .inl rfl
        | cons id ids => exact .inr (List.mem_cons_self ..)
      have hms : ∀ m ∈ later, m.NotBefore location.stop := hprecedes _ (List.mem_singleton_self _)
      obtain ⟨hstop, hrules⟩ := hends _ (List.mem_append_left _ (List.mem_singleton_self _))
      have hfrom : low ≤ location.offset :=
        hlow _ (List.mem_append_left _ (List.mem_singleton_self _))
      have hagree := ih (h.move first) ht hd horder' hends' hms
      -- what the rest of the run makes of a suppression is the range that its directive declares
      have hcovers : ∀ sup ∈ begun configured (.directive action rules (ids.headD rootId) location),
          (sup.after (later ++ [⟨.domReady, final⟩])).coverage? =
            final.covered? sup.rule action (ids.headD rootId) location (later.map Moment.event) :=
        fun sup hsup => Suppression.coverage?_after rest (h.move first) ht hd hp hms
          (of_mem_begun hsup).1
      refine hagree.cons hfrom (declared_directive fun sup hsup => ?_) ?_ ?_ ?_ ?_
      · rw [Document.covered?_append_domReady]
        exact hcovers sup hsup
      · intro sup hsup range hrange
        obtain ⟨sup, hbegun, rfl⟩ := List.mem_map.mp hsup
        exact Suppression.liesBetween_of_coverage? rest (h.move first) ht hd hp hms
          (of_mem_begun hbegun).1 hlaminar hends' hstop hrange
      · intro sup hsup haction range hrange
        obtain ⟨sup, hbegun, rfl⟩ := List.mem_map.mp hsup
        rw [Suppression.action_after, (of_mem_begun hbegun).2.2.1] at haction
        exact Document.start_of_covered? haction ((hcovers sup hbegun).symm.trans hrange)
      · intro sup hsup hrule
        obtain ⟨sup, hbegun, rfl⟩ := List.mem_map.mp hsup
        rw [Suppression.rule_after] at hrule
        obtain ⟨r, hr, hplace⟩ := (of_mem_begun hbegun).2.1 hrule
        rw [Suppression.location_after, hplace]
        exact hrules r hr
      · intro sup hsup
        obtain ⟨sup, hbegun, rfl⟩ := List.mem_map.mp hsup
        rw [Suppression.after_eq]
        exact (of_mem_begun hbegun).2.2.2

/-- The suppressions of a source that can be parsed agree with its document. -/
theorem agree_of_parsing (v : Vocabulary) (configured : List String) (enabled : NameMap Severity)
    {source : String} (h : (tokenize source).failure = none) :
    ∃ d es s, parse v source = .ok (d, es) ∧
      observeParsing v observe (.start configured enabled) source = (.ok d, s) ∧
      d.sourceLength = byteLength source.toList ∧ (∀ i : Nat, i < d.size → (d.range? i).isSome) ∧
      Agree configured d es 0 s.entries := by
  obtain ⟨ms, d, k, hk, hcourse, hrecord⟩ := record_course h v
  have hrun := hcourse.run
  have hlength : d.ended.sourceLength = byteLength source.toList := hrun.sourceLength_eq
  have hsound : (Stage.mk d [] none).Sound := Stage.Sound.run hrun (.ofLength _)
  obtain ⟨-, horder⟩ := hcourse.inByteOrder (.ofLength _)
  -- everything that the run needs to know of places comes from one course
  have hagree := arising_agree hrun (.ofLength _) (by simp [Stage.Awaits]) hsound.growsTo_ended
    horder.pairwise (hlength ▸ fun m hm => (horder.endsBy m hm).mono hk)
    (hlength ▸ (hcourse.isLaminar hk).2) horder.notBefore configured
  refine ⟨_, _, _, parse_eq h v, observeParsing_eq h v _ _, ?_⟩
  simp only [hrecord, entries_foldl]
  refine ⟨hlength, fun i hi => hrun.range?_isSome (by simpa [Document.ended] using hi), ?_⟩
  have heq := hagree.disabling_eq
  exact ⟨by simpa [start, arising, begun, declared] using heq, hagree.liesBetween,
    hagree.namedBefore, hagree.startsFirst, hagree.unmatched⟩

end Suppressions

/-- Whatever rules are configured, the suppressions of a source cover in the end what its directives
declare: `disable` up to the directive that enables the rule again, `disable-block` up to the end of
the element around it, `disable-next` the next element in this element, or else the element whose
start tag closes it.  What they cover lies within the source. -/
theorem coverage_eq_declared (v : Vocabulary) (configured : List String)
    (enabled : NameMap Severity) {source : String} (h : (tokenize source).failure = none) :
    ∃ d es s, parse v source = .ok (d, es) ∧
      observeParsing v Suppressions.observe (.start configured enabled) source = (.ok d, s) ∧
      d.sourceLength = byteLength source.toList ∧ (∀ i : Nat, i < d.size → (d.range? i).isSome) ∧
      s.entries.map Suppression.disabling = declared configured d es ∧
      ∀ sup ∈ s.entries, ∀ range, sup.coverage? = some range →
        range.start ≤ range.stop ∧ range.stop ≤ byteLength source.toList := by
  obtain ⟨d, es, s, hparse, hobserve, hlength, hends, hagree⟩ :=
    Suppressions.agree_of_parsing v configured enabled h
  refine ⟨d, es, s, hparse, hobserve, hlength, hends, hagree.disabling_eq,
    fun sup hsup range hrange => ?_⟩
  have hlies := hagree.liesBetween sup hsup range hrange
  exact ⟨hlies.start_le, hlength ▸ hlies.stop_le⟩

/-- The start tag of `div` closes the paragraph that the directive stands in, and the directive is
handed on to the `div`. -/
theorem coverage_eq_declared_handed_on :
    let source := "<p><!-- [html-validate-disable-next no-dup-attr] --><div></div>"
    let v : Vocabulary :=
      ⟨.ofList [("p", { (default : ElementModel) with tag := "p", implicitClosed := ["div"] })]⟩
    let start := Suppressions.start ["no-dup-attr"] .empty
    (tokenize source).failure = none ∧
    (observeParsing v Suppressions.observe start source).2.entries.map Suppression.coverage? =
      [some ⟨52, 63⟩] ∧
    ∃ d es s, parse v source = .ok (d, es) ∧
      observeParsing v Suppressions.observe start source = (.ok d, s) ∧
      d.sourceLength = byteLength source.toList ∧ (∀ i : Nat, i < d.size → (d.range? i).isSome) ∧
      s.entries.map Suppression.disabling = declared ["no-dup-attr"] d es ∧
      ∀ sup ∈ s.entries, ∀ range, sup.coverage? = some range →
        range.start ≤ range.stop ∧ range.stop ≤ byteLength source.toList := by
  intro source v start
  have hscan : (tokenize source).failure = none := by decide +kernel
  exact ⟨hscan, by decide +kernel, coverage_eq_declared v ["no-dup-attr"] .empty hscan⟩

end HtmlLint
