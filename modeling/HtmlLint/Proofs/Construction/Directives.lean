import HtmlLint.Proofs.Construction.Run
import HtmlLint.Proofs.Token.Place

/-!
# Directives of a source

While a document is made, a directive is told of only where there is a comment (`event?_of_mem_step`
for one token, `exists_comment_of_mem_emitted` for a whole source), also in a source that is not cut
up to its end.  The rules of the directive can therefore be looked up in the source:
`emitted_directive_exact` says that each of them is found exactly where its location tells, inside
the comment, and that they come in the order of the source.
-/

namespace HtmlLint

/-- The events of building a document, also those before a fault that stops it. -/
def emitted (v : Vocabulary) (source : String) : List Event :=
  (observeParsing v (fun seen m => m.event :: seen) [] source).2.reverse

/-! ## Where directives come from -/

namespace Construction

variable {v : Vocabulary} {c : Construction} {t : Token} {e : Event}

/-- Where elements begin and end, there is no directive. -/
private theorem not_mem_of_isStructural {ms : List Moment}
    (h : ∀ m ∈ ms, m.event.kind.isStructural = true) (he : e.kind = .directive) :
    e ∉ ms.map Moment.event := by
  intro hmem
  obtain ⟨m, hm, rfl⟩ := List.mem_map.mp hmem
  have hstructural := h m hm
  rw [he] at hstructural
  cases hstructural

/-- The first event is no directive. -/
private theorem not_mem_start (c : Construction) (he : e.kind = .directive) :
    e ∉ c.start.2.map Moment.event := by
  simp only [start]
  split
  · exact List.not_mem_nil
  · intro hmem
    rw [List.mem_singleton.mp hmem] at he
    cases he

/-- A token that tells of a directive is a comment, and the directive is what the comment says. -/
theorem event?_of_mem_step (he : e.kind = .directive) (h : e ∈ (c.step v t).2.map Moment.event) :
    t.kind = .comment ∧ Directive.event? t c.current = some e := by
  obtain ⟨m, hm, rfl⟩ := List.mem_map.mp h
  obtain hstructural | ⟨id, last, a, -, hattr⟩ | hcomment | ⟨-, hdoctype⟩ := mem_step_cases hm
  · rw [he] at hstructural
    cases hstructural
  · rw [hattr] at he
    cases he
  · exact hcomment
  · rw [hdoctype] at he
    cases he

/-- Every directive comes from a comment among the tokens. -/
private theorem exists_comment_of_mem_takeIn {ts : List Token} (he : e.kind = .directive)
    (h : e ∈ (takeIn v ts c).2.map Moment.event) :
    ∃ t ∈ ts, t.kind = .comment ∧ ∃ parent, Directive.event? t parent = some e := by
  induction ts generalizing c with
  | nil => cases h
  | cons t ts ih =>
    simp only [takeIn, push_eq, List.map_append, List.mem_append] at h
    obtain (hstart | hstep) | hlater := h
    · exact absurd hstart (not_mem_start c he)
    · obtain ⟨hkind, hevent⟩ := event?_of_mem_step he hstep
      exact ⟨t, List.mem_cons_self .., hkind, _, hevent⟩
    · obtain ⟨u, hu, hcomment⟩ := ih hlater
      exact ⟨u, List.mem_cons_of_mem t hu, hcomment⟩

/-- The end of the source shows no directive. -/
private theorem not_mem_finish (v : Vocabulary) (c : Construction) (he : e.kind = .directive) :
    e ∉ (c.finish v).2.map Moment.event := by
  rw [finish_eq]
  simp only [List.map_append, List.mem_append]
  rintro ((hstart | hclosed) | hready)
  · exact not_mem_start c he hstart
  · exact not_mem_of_isStructural (closeAll_isStructural _ _ _) he hclosed
  · rw [List.mem_singleton.mp hready] at he
    cases he

end Construction

/-- Each directive of a source is what one of its comments says. -/
theorem exists_comment_of_mem_emitted {v : Vocabulary} {source : String} {e : Event}
    (he : e.kind = .directive) (h : e ∈ emitted v source) :
    ∃ t ∈ (tokenize source).tokens, t.kind = .comment ∧
    ∃ parent, Directive.event? t parent = some e := by
  simp only [emitted, observeParsing, Construction.pushAll_eq_foldl, foldl_event_cons,
    List.append_nil] at h
  split at h
  · rw [List.reverse_reverse] at h
    exact Construction.exists_comment_of_mem_takeIn he h
  · rw [List.reverse_append, List.reverse_reverse, List.reverse_reverse] at h
    cases List.mem_append.mp h with
    | inl h => exact Construction.exists_comment_of_mem_takeIn he h
    | inr h => exact absurd h (Construction.not_mem_finish v _ he)

/-! ## Where rules are named -/

/-- The rule is named inside the comment, and its location tells where: how many bytes, line breaks
and characters of the last line come before the name in the source, and how many bytes the name
has. -/
structure DirectiveRule.IsExactIn (source : List Char) (comment : Token)
    (r : DirectiveRule) : Prop where
  ne_nil : r.id.toList ≠ []
  stands : ∃ before after, source = before ++ r.id.toList ++ after ∧
    r.location.offset = byteLength before ∧ r.location.size = byteLength r.id.toList ∧
    r.location.line = 1 + before.count '\n' ∧
    r.location.column = 1 + (before.reverse.takeWhile (· != '\n')).length
  inside : comment.location.offset ≤ r.location.offset ∧ r.location.stop ≤ comment.location.stop

/-- A rule that stands in a comment is found in the source where its place tells. -/
private theorem DirectiveRule.StandsIn.isExactIn {source : List Char} {t : Token}
    {r : DirectiveRule} (h : r.StandsIn t.location.toPosition t.text.toList)
    (ht : t.StandsIn source) : r.IsExactIn source t := by
  obtain ⟨hne, before, after, hsource, hlocation⟩ := h.ofToken ht
  refine ⟨hne, ⟨before, after, hsource, ?_⟩, ?_⟩
  · rw [hlocation, Position.advance_start]
    exact ⟨rfl, rfl, rfl, rfl⟩
  · obtain ⟨hstart, -, hstop⟩ := h.bounds
    have hsize : t.location.size = byteLength t.text.toList := by
      obtain ⟨_, _, -, hcovering⟩ := ht
      rw [hcovering]
      rfl
    rw [← hsize] at hstop
    exact ⟨hstart, hstop⟩

/-- Each directive of a source stands in one of its comments, and each rule that it names is found
in the source exactly where the rule's location tells, inside the comment.  The rules come in the
order of the source, and no two of them touch. -/
theorem emitted_directive_exact {v : Vocabulary} {source : String} {action : DirectiveAction}
    {rules : List DirectiveRule} {parent : NodeId} {location : Location}
    (h : .directive action rules parent location ∈ emitted v source) :
    ∃ t ∈ (tokenize source).tokens, t.kind = .comment ∧ t.location = location ∧
      (∀ r ∈ rules, r.IsExactIn source.toList t) ∧
      rules.Pairwise fun r later => r.location.stop < later.location.offset := by
  obtain ⟨t, ht, hkind, p, hevent⟩ := exists_comment_of_mem_emitted rfl h
  have hstands := tokenize_standsIn source t ht
  obtain ⟨rfl, parts, -, hrules⟩ := Directive.event?_eq_directive hevent
  refine ⟨t, ht, hkind, rfl, ?_, ?_⟩
  · intro r hr
    exact (Directive.standsIn_of_event? hevent hr).isExactIn hstands
  · rw [hrules]
    exact Directive.pairwise_rulesOf _ _

/-- Two directives, of which the second one is on two lines, before a tag that does not end. -/
theorem emitted_directive_exact_unfinished :
    let source := "é<!--\n [html-validate-disable ü-a ,, b: x] --><?[html-validate-enable\nü, c]><p"
    let rules : List DirectiveRule := [⟨"ü", ⟨⟨72, 3, 1⟩, 2⟩⟩, ⟨"c", ⟨⟨76, 3, 4⟩, 1⟩⟩]
    (tokenize source).failure ≠ none ∧
    .directive .enable rules rootId ⟨⟨48, 2, 41⟩, 31⟩ ∈ emitted ⟨.empty⟩ source ∧
    ∃ t ∈ (tokenize source).tokens, t.kind = .comment ∧ t.location = ⟨⟨48, 2, 41⟩, 31⟩ ∧
      (∀ r ∈ rules, r.IsExactIn source.toList t) ∧
      rules.Pairwise fun r later => r.location.stop < later.location.offset := by
  intro source rules
  have hmem : .directive .enable rules rootId ⟨⟨48, 2, 41⟩, 31⟩ ∈ emitted ⟨.empty⟩ source :=
    by decide +kernel
  exact ⟨by decide +kernel, hmem, emitted_directive_exact hmem⟩

end HtmlLint
