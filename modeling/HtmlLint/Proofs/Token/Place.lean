import HtmlLint.Proofs.Document.Directive
import HtmlLint.Proofs.Token.Tiling

/-!
# Places in a source

A location is right if it tells about a slice of the source what a reader would count there:
`Location.LiesIn` says so in terms of reading, `Location.PointsInto` in terms of bytes, line breaks
and characters.  Two slices of a source can be joined by extending the first one to the end of the
second (`LiesIn.extendTo`).

A token stands in the source if its text does, where its location tells; so do the rules that a
comment names.  The fault that stops the scanner lies in the source as well
(`tokenize_failure_liesIn`).  A fault inside a tag may tell where the tag began, so that the scanner
has to remember a point of the source while it reads a tag: `Scanner.IsIn`.
-/

namespace HtmlLint

/-- The point lies in the source: it is reached by reading a first part of it. -/
def Position.LiesIn (source : List Char) (p : Position) : Prop :=
  ∃ before after, source = before ++ after ∧ p = Position.start.advance before

namespace Location

/-- The slice lies in the source: it starts at the point that is reached by reading what comes
before it. -/
def LiesIn (source : List Char) (l : Location) : Prop :=
  ∃ before inside after, source = before ++ inside ++ after ∧
    l = .covering (Position.start.advance before) inside

/-- The location points into the source: it stops within the source, starts and stops between
characters, and tells how many line breaks come before it and how many characters come before it on
its line, each counted from one. -/
structure PointsInto (source : List Char) (l : Location) : Prop where
  stop_le : l.offset + l.size ≤ byteLength source
  stands : ∃ before inside after, source = before ++ inside ++ after ∧
    l.offset = byteLength before ∧ l.size = byteLength inside ∧
    l.line = 1 + before.count '\n' ∧ l.column = 1 + (before.reverse.takeWhile (· != '\n')).length

variable {source : List Char} {l other : Location}

/-- A slice of the source stops before the source ends. -/
private theorem LiesIn.stop_le (h : l.LiesIn source) : l.stop ≤ byteLength source := by
  obtain ⟨before, inside, after, rfl, rfl⟩ := h
  show (Position.start.advance before).offset + byteLength inside ≤ _
  rw [Position.offset_advance, byteLength_append, byteLength_append]
  show 0 + _ + _ ≤ _
  omega

/-- What is told by reading is told by counting. -/
theorem LiesIn.pointsInto (h : l.LiesIn source) : l.PointsInto source := by
  refine ⟨h.stop_le, ?_⟩
  obtain ⟨before, inside, after, hsource, rfl⟩ := h
  refine ⟨before, inside, after, hsource, ?_⟩
  rw [Position.advance_start]
  exact ⟨rfl, rfl, rfl, rfl⟩

/-- The slice from the start of one slice to the end of another. -/
theorem LiesIn.extendTo (h : l.LiesIn source) (h' : other.LiesIn source) :
    (l.extendTo other).LiesIn source := by
  by_cases hstop : other.stop > l.offset
  · obtain ⟨before, inside, after, hsource, rfl⟩ := h
    obtain ⟨before', inside', after', hsource', rfl⟩ := h'
    have hoffset : ∀ cs : List Char, (Position.start.advance cs).offset = byteLength cs := by
      intro cs
      rw [Position.offset_advance]
      exact Nat.zero_add _
    -- both are measured along the source, and the other one stops further along
    have hlt : byteLength before < byteLength (before' ++ inside') := by
      rw [byteLength_append]
      simpa [Location.stop, covering, hoffset] using hstop
    have hprefix : before <+: before' ++ inside' := by
      have hall : before <+: source := ⟨inside ++ after, by rw [hsource, List.append_assoc]⟩
      obtain hle | hle := List.prefix_or_prefix_of_prefix hall ⟨after', hsource'.symm⟩
      · exact hle
      · obtain ⟨more, hmore⟩ := hle
        rw [← hmore, byteLength_append] at hlt
        omega
    obtain ⟨between, hbetween⟩ := hprefix
    refine ⟨before, between, after', by rw [hbetween]; exact hsource', ?_⟩
    have hsize : byteLength (before' ++ inside') = byteLength before + byteLength between := by
      rw [← hbetween, byteLength_append]
    rw [byteLength_append] at hsize
    rw [Location.extendTo, if_pos hstop]
    simp only [covering, Location.stop, hoffset, Location.mk.injEq, true_and]
    omega
  · rwa [Location.extendTo, if_neg hstop]

/-- The empty slice at a point of the source lies in the source. -/
private theorem LiesIn.of_point {p : Position} (h : p.LiesIn source) : (point p).LiesIn source := by
  obtain ⟨before, after, rfl, rfl⟩ := h
  exact ⟨before, [], after, by simp, rfl⟩

end Location

/-! ## Tokens -/

/-- The token stands in the source where its location tells. -/
def Token.StandsIn (source : List Char) (t : Token) : Prop :=
  ∃ before after, source = before ++ t.text.toList ++ after ∧
    t.location = .covering (Position.start.advance before) t.text.toList

/-- The place of a token of the source lies in the source. -/
theorem Token.StandsIn.liesIn {source : List Char} {t : Token} (h : t.StandsIn source) :
    t.location.LiesIn source := by
  obtain ⟨before, after, hsource, hlocation⟩ := h
  exact ⟨before, _, after, hsource, hlocation⟩

/-- Tokens that tile a text stand in every source in which the text comes next. -/
theorem Token.Tiles.standsIn {whole : Prop} {inTag : Bool} {source before cs : List Char}
    {ts : List Token} (h : Tiles whole inTag (Position.start.advance before) cs ts)
    (hsource : source = before ++ cs) :
    ∀ t ∈ ts, t.StandsIn source := by
  induction ts generalizing inTag before cs with
  | nil => exact fun t ht => nomatch ht
  | cons t ts ih =>
    obtain ⟨gap, later, rfl, -, -, -, hlocation, hlater⟩ := h
    rw [← Position.advance_append] at hlocation hlater
    intro u hu
    cases List.mem_cons.mp hu with
    | inl hu =>
      subst hu
      exact ⟨before ++ gap, later, by rw [hsource]; simp, hlocation⟩
    | inr hu => exact ih hlater (by rw [hsource]; simp) u hu

/-- All tokens of a source stand in it. -/
theorem tokenize_standsIn (source : String) :
    ∀ t ∈ (tokenize source).tokens, t.StandsIn source.toList :=
  (Scanner.run_tiles (s := .ofSource source.toList) trivial).standsIn (List.nil_append _).symm

/-- What is named in a token is named in the source. -/
theorem DirectiveRule.StandsIn.ofToken {source : List Char} {t : Token} {r : DirectiveRule}
    (h : r.StandsIn t.location.toPosition t.text.toList) (ht : t.StandsIn source) :
    r.StandsIn Position.start source := by
  obtain ⟨before, after, rfl, hlocation⟩ := ht
  have hstart : t.location.toPosition = Position.start.advance before := by rw [hlocation]; rfl
  rw [hstart] at h
  exact h.extend before after

/-- The place of a rule that is named in the source lies in the source. -/
theorem DirectiveRule.StandsIn.liesIn {source : List Char} {r : DirectiveRule}
    (h : r.StandsIn Position.start source) :
    r.location.LiesIn source := by
  obtain ⟨-, before, after, hsource, hlocation⟩ := h
  exact ⟨before, _, after, hsource, hlocation⟩

/-! ## Faults -/

/-- The tag that the scanner is in. -/
def ScanMode.tag? : ScanMode → Option TagInProgress
  | attributeName tag | attributeValue tag => some tag
  | text | tagOpen | tagName _ | comment | doctype | rawText _ | failed => none

namespace Scanner

variable {source : List Char} {s s' : Scanner} {tag : TagInProgress} {e : ScanError}

/-- The scanner is in the source: what it has ahead is the source from its position on, and the tag
that it is in began at a point as well. -/
structure IsIn (source : List Char) (s : Scanner) : Prop where
  reached : ∃ before, source = before ++ s.ahead ∧ s.position = Position.start.advance before
  began : ∀ tag, s.mode.tag? = some tag → tag.start.LiesIn source

/-- At the start the scanner is in its source. -/
theorem IsIn.ofSource (source : List Char) : (Scanner.ofSource source).IsIn source :=
  ⟨⟨[], rfl, rfl⟩, fun _ htag => nomatch htag⟩

/-- The scanner stands at a point of the source. -/
private theorem IsIn.position_liesIn (h : s.IsIn source) : s.position.LiesIn source := by
  obtain ⟨before, hsource, hposition⟩ := h.reached
  exact ⟨before, s.ahead, hsource, hposition⟩

/-- Reading keeps the scanner in its source; a tag that it is in later has begun before, or begins
now. -/
theorem IsIn.read (h : s.IsIn source) {taken : List Char} (hreads : s.Reads taken s')
    (htag : ∀ tag, s'.mode.tag? = some tag → s.mode.tag? = some tag ∨ tag.start = s.position) :
    s'.IsIn source := by
  constructor
  · obtain ⟨before, hsource, hposition⟩ := h.reached
    refine ⟨before ++ taken, ?_, ?_⟩
    · rw [hsource, hreads.1, List.append_assoc]
    · rw [hreads.2, hposition, Position.advance_append]
  · intro tag hmode
    obtain hsame | hnew := htag tag hmode
    · exact h.began tag hsame
    · rw [hnew]
      exact h.position_liesIn

/-- Passing over blanks does not leave the source. -/
private theorem IsIn.skipBlanks (h : s.IsIn source) (hlead : s.mode.lead = []) :
    s.skipBlanks.IsIn source :=
  h.read (skipBlanks_reads hlead) fun _ => .inl

/-- What comes next lies in the source. -/
private theorem IsIn.liesIn (h : s.IsIn source) (hlead : s.mode.lead = []) {taken rest : List Char}
    (hrest : s.rest = taken ++ rest) : (Location.covering s.position taken).LiesIn source := by
  obtain ⟨before, hsource, hposition⟩ := h.reached
  rw [ahead_eq hlead] at hsource
  exact ⟨before, taken, rest, by rw [hsource, hrest, List.append_assoc], by rw [hposition]⟩

/-- The scanner enters a tag only at the point it has reached. -/
private theorem turn_tag? (h : s.turn.next? = some s') (htag : s'.mode.tag? = some tag) :
    s.mode.tag? = some tag ∨ tag.start = s.position := by
  -- a tag is begun with its name and carried on through its attributes
  cases hm : s.mode with
  | text =>
    simp only [turn, hm, turnText] at h
    repeat' split at h
    all_goals cases h <;> cases htag
  | tagOpen =>
    simp only [turn, hm, turnTagOpen, Turn.next?, Option.some.injEq] at h
    subst h
    cases htag
  | tagName lead =>
    simp only [turn, hm, turnTagName, next?_emit, Option.some.injEq] at h
    subst h
    cases htag
    exact .inr rfl
  | attributeName current =>
    left
    simp only [turn, hm, turnAttributeName] at h
    split at h
    · cases h
    · -- after the tag there is text, of one kind or the other
      rw [next?_emit, Option.some.injEq] at h
      subst h
      simp only [Scanner.read, afterTag] at htag
      split at htag <;> cases htag
    · cases h; cases htag
    · cases h; exact htag
    · split at h
      · cases h
      · simp only [readAttribute] at h
        split at h
        · cases h
          simp only [Scanner.read] at htag
          split at htag <;> exact htag
        · cases h; exact htag
  | attributeValue current =>
    left
    simp only [turn, hm, turnAttributeValue] at h
    repeat' split at h
    all_goals cases h <;> exact htag
  | comment =>
    simp only [turn, hm, turnComment, upToAngle] at h
    repeat' split at h
    all_goals cases h <;> cases htag
  | doctype =>
    simp only [turn, hm, upToAngle] at h
    split at h <;> cases h
    cases htag
  | rawText name =>
    simp only [turn, hm, turnRawText] at h
    split at h <;> cases h <;> cases htag
  | failed =>
    rw [turn, hm] at h
    cases h

/-- Every turn that goes on stays in the source. -/
theorem IsIn.turn (h : s.IsIn source) (hnext : s.turn.next? = some s') : s'.IsIn source := by
  obtain ⟨taken, hreads⟩ := exists_reads hnext
  exact h.read hreads fun tag => turn_tag? hnext

/-- A fault that is reported where the scanner stands lies in the source. -/
private theorem IsIn.faultHere (h : s.IsIn source) (hlead : s.mode.lead = []) {fault : ScanFault}
    (he : s.faultHere fault = .fault e) : e.location.LiesIn source := by
  cases he
  exact h.liesIn hlead (List.append_nil _).symm

/-- A tag that has no end lies in the source. -/
private theorem IsIn.unterminated (h : s.IsIn source) (htag : s.mode.tag? = some tag)
    (he : unterminated tag = .fault e) : e.location.LiesIn source := by
  cases he
  exact .of_point (h.began tag htag)

/-- So does a place at which a `>` is missing. -/
private theorem IsIn.upToAngle (h : s.IsIn source) (hlead : s.mode.lead = []) {kind : TokenKind}
    {fault : ScanFault} (he : s.upToAngle kind fault = .fault e) : e.location.LiesIn source := by
  simp only [Scanner.upToAngle] at he
  split at he
  · exact h.faultHere hlead he
  · cases he

/-- A fault concerns something in the source. -/
private theorem IsIn.turn_fault (h : s.IsIn source) (he : s.turn = .fault e) :
    e.location.LiesIn source := by
  cases hm : s.mode with
  | text =>
    simp only [Scanner.turn, hm, turnText] at he
    repeat' split at he
    all_goals cases he
  | tagOpen => simp [Scanner.turn, hm, turnTagOpen] at he
  | tagName lead => simp [Scanner.turn, hm, turnTagName, emit] at he
  | attributeName current =>
    have hlead : s.mode.lead = [] := by rw [hm]; rfl
    simp only [Scanner.turn, hm, turnAttributeName] at he
    split at he
    · exact h.unterminated (by rw [hm]; rfl) he
    · cases he
    · cases he
    · cases he
    · rename_i hrest
      split at he
      · cases he
        exact (h.skipBlanks hlead).liesIn hlead hrest
      · simp only [readAttribute] at he
        split at he <;> cases he
  | attributeValue current =>
    have hlead : s.mode.lead = [] := by rw [hm]; rfl
    simp only [Scanner.turn, hm, turnAttributeValue] at he
    split at he
    · exact h.unterminated (by rw [hm]; rfl) he
    · split at he
      · split at he
        · exact (h.skipBlanks hlead).faultHere hlead he
        · cases he
      · cases he
  | comment =>
    have hlead : s.mode.lead = [] := by rw [hm]; rfl
    simp only [Scanner.turn, hm, turnComment] at he
    split at he
    · split at he
      · exact h.faultHere hlead he
      · cases he
    · exact h.upToAngle hlead he
  | doctype =>
    simp only [Scanner.turn, hm] at he
    exact h.upToAngle (by rw [hm]; rfl) he
  | rawText name =>
    simp only [Scanner.turn, hm, turnRawText] at he
    split at he <;> cases he
  | failed =>
    rw [Scanner.turn, hm] at he
    cases he

/-- The fault that ends a run lies in the source. -/
private theorem IsIn.run_failure (h : s.IsIn source) (he : s.run.failure = some e) :
    e.location.LiesIn source := by
  fun_induction run s with
  | case1 s t s' hturn later =>
    rename_i ih
    exact ih (h.turn (by rw [hturn]; rfl)) he
  | case2 s s' hturn ih => exact ih (h.turn (by rw [hturn]; rfl)) he
  | case3 s fault hturn =>
    cases he
    exact h.turn_fault hturn
  | case4 s hturn => cases he

end Scanner

/-- Where a source cannot be cut into tokens, the fault lies in it. -/
theorem tokenize_failure_liesIn {source : String} {e : ScanError}
    (h : (tokenize source).failure = some e) :
    e.location.LiesIn source.toList :=
  (Scanner.IsIn.ofSource source.toList).run_failure h

end HtmlLint
