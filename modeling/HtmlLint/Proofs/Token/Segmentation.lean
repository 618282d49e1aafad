import HtmlLint.Proofs.Token.Canonical
import HtmlLint.Proofs.Token.Place

/-!
# Where text ends

The scanner reads text in two ways.  Outside of tags it goes up to the next markup, and in an
element whose content is raw text up to the end tag of that element.  `BeginsMarkup` and
`BeginsEndTag` tell in terms of characters what stops it, and `Text.EndsAtFirst` that it stops there
and not before.

Which of the two ways it is can be told from the tokens before: `Token.rawTextElement?`.  The
invariant `Scanner.Follows` ties the mode of the scanner to them.  It also says that no text is left
where text has just ended, so that two texts are never next to each other.  All of this together is
`tokenize_text_exact`.
-/

namespace HtmlLint

/-! ## What ends a text -/

/-- The characters begin with markup: a tag, a comment, a doctype or something in place of one. -/
def BeginsMarkup (cs : List Char) : Prop :=
  (∃ c rest, c.isAlpha = true ∧ (cs = '<' :: c :: rest ∨ cs = '<' :: '/' :: c :: rest)) ∨
    ∃ rest, cs = '<' :: '!' :: rest ∨ cs = '<' :: '?' :: rest

/-- The characters begin with the end tag of this name, in any case: what follows the name ends
it. -/
def BeginsEndTag (name : String) (cs : List Char) : Prop :=
  ∃ spelling rest, cs = '<' :: '/' :: spelling ++ rest ∧
    spelling.map Char.toLower = name.toList.map Char.toLower ∧
    (rest = [] ∨ ∃ c later, rest = c :: later ∧ (Text.isBlank c = true ∨ c = '>' ∨ c = '/'))

/-- The test for a tag finds tags. -/
private theorem startsTag_iff {cs : List Char} : startsTag cs = true ↔
    ∃ c rest, c.isAlpha = true ∧ (cs = '<' :: c :: rest ∨ cs = '<' :: '/' :: c :: rest) := by
  constructor
  · intro h
    unfold startsTag at h
    split at h
    · exact ⟨_, _, h, .inr rfl⟩
    · exact ⟨_, _, h, .inl rfl⟩
    · cases h
  · rintro ⟨c, rest, hc, rfl | rfl⟩
    · exact Scanner.startsTag_of_lead false hc rest
    · exact Scanner.startsTag_of_lead true hc rest

/-- The test for markup finds markup. -/
private theorem startsMarkup_iff {cs : List Char} : startsMarkup cs = true ↔ BeginsMarkup cs := by
  have hlead : ∀ c : Char, ['<', c].isPrefixOf cs = true ↔ ∃ rest, cs = '<' :: c :: rest := by
    intro c
    rw [List.isPrefixOf_iff_prefix]
    constructor
    · rintro ⟨rest, rfl⟩
      exact ⟨rest, rfl⟩
    · rintro ⟨rest, rfl⟩
      exact ⟨rest, rfl⟩
  have hbang : Text.startsWith cs "<!" = true ↔ ∃ rest, cs = '<' :: '!' :: rest := hlead '!'
  have hquestion : Text.startsWith cs "<?" = true ↔ ∃ rest, cs = '<' :: '?' :: rest := hlead '?'
  rw [startsMarkup, Bool.or_eq_true, Bool.or_eq_true, startsTag_iff, hbang, hquestion, BeginsMarkup,
    exists_or, or_assoc]

/-- The test for the end tag of an element finds these end tags. -/
private theorem startsEndTagOf_iff {name : String} {cs : List Char} :
    startsEndTagOf name cs = true ↔ BeginsEndTag name cs := by
  constructor
  · intro h
    obtain ⟨spelling, rest, hcs, hspelling, hstop⟩ := exists_of_startsEndTagOf h
    refine ⟨spelling, rest, hcs, hspelling, ?_⟩
    cases rest with
    | nil => exact .inl rfl
    | cons c later =>
      have hc := hstop c rfl
      simp only [Bool.not_eq_false', Bool.or_eq_true, beq_iff_eq, or_assoc] at hc
      exact .inr ⟨c, later, rfl, hc⟩
  · rintro ⟨spelling, rest, rfl, hspelling, hend⟩
    refine startsEndTagOf_of_spelling hspelling ?_
    rcases hend with rfl | ⟨c, later, rfl, hc⟩
    · exact .nil
    · refine .cons ?_
      simpa only [Bool.not_eq_false', Bool.or_eq_true, beq_iff_eq, or_assoc] using hc

/-- Tags are markup. -/
private theorem startsMarkup_of_startsTag {cs : List Char} (h : startsTag cs = true) :
    startsMarkup cs = true := by
  simp [startsMarkup, h]

/-- Of the text and what follows it, the second part is the first one that satisfies `P`, or it is
empty. -/
structure Text.EndsAtFirst (P : List Char → Prop) (text post : List Char) : Prop where
  before : ∀ x c y, text = x ++ c :: y → ¬ P (c :: y ++ post)
  stop : post = [] ∨ P post

/-- A text that is broken off at the first match of a test ends at the first place that the test is
for. -/
private theorem Text.endsAtFirst_of_breakAt {q : List Char → Bool} {P : List Char → Prop}
    (hq : ∀ cs, q cs = true ↔ P cs) {text post : List Char}
    (h : breakAt q (text ++ post) = (text, post)) : EndsAtFirst P text post where
  before x c y htext hP := by
    have hfound : (breakAt q (text ++ post)).1 = x ++ c :: y := by rw [h]; exact htext
    have hno := breakAt_before hfound
    rw [h, (hq _).mpr hP] at hno
    cases hno
  stop := (stop_of_breakAt h).imp_right (hq post).mp

/-! ## Which text is raw -/

namespace Token

/-- The element whose raw text comes after the tokens: they end with the `>` of its start tag. -/
def rawTextElement? (ts : List Token) : Option String :=
  if leadIntoRawText ts then (lastTag? ts).map fun tag => Text.foldCase tag.tagName else none

/-- The last token is a text. -/
def endWithText (ts : List Token) : Bool :=
  ts.getLast?.any (·.kind == .text)

/-- The token begins an end tag of the element. -/
structure IsEndTagOf (name : String) (t : Token) : Prop where
  kind_eq : t.kind = .tagOpen
  isEndTag : t.isEndTag = true
  name_eq : Text.foldCase t.tagName = name

/-- Raw text comes only after the end of a tag. -/
private theorem rawTextElement?_concat_of_ne {t : Token} (h : t.kind ≠ .tagClose ∨ t.text ≠ ">")
    (ts : List Token) :
    rawTextElement? (ts ++ [t]) = none := by
  have hno : leadIntoRawText (ts ++ [t]) = false := by
    simp only [leadIntoRawText, List.getLast?_concat, Option.any_some]
    rcases h with hkind | htext
    · simp [hkind]
    · simp [htext]
  simp [rawTextElement?, hno]

/-- Whether tokens end with text is seen from the last one. -/
private theorem endWithText_concat (ts : List Token) (t : Token) :
    endWithText (ts ++ [t]) = (t.kind == .text) := by
  simp [endWithText]

/-- The last token before raw text is the end of a tag. -/
private theorem endWithText_of_rawTextElement? {ts : List Token} {name : String}
    (h : rawTextElement? ts = some name) :
    endWithText ts = false := by
  unfold rawTextElement? at h
  split at h
  · rename_i hlead
    unfold leadIntoRawText at hlead
    unfold endWithText
    cases hlast : ts.getLast? with
    | none => rfl
    | some t =>
      simp only [hlast, Option.any_some, Bool.and_eq_true, beq_iff_eq] at hlead
      simp [hlead.1.1]
  · cases h

/-- Raw text comes only in the elements that have raw text. -/
private theorem mem_rawTextElements {ts : List Token} {name : String}
    (h : rawTextElement? ts = some name) :
    name ∈ rawTextElements := by
  unfold rawTextElement? at h
  split at h
  · rename_i hlead
    obtain ⟨tag, htag, rfl⟩ := Option.map_eq_some_iff.mp h
    simp only [leadIntoRawText, htag, Option.any_some, opensRawText, Bool.and_eq_true,
      List.contains_iff_mem] at hlead
    exact hlead.2.2
  · cases h

/-- After the `>` of a tag the scanner expects raw text just where the tokens lead into it. -/
private theorem rawTextElement?_tagClose {ts : List Token} {tag : TagInProgress} {t : Token}
    (hmode : (ScanMode.attributeName tag).ComesFrom ts) (hkind : t.kind = .tagClose)
    (htext : t.text = ">") :
    Scanner.afterTag tag = (match rawTextElement? (ts ++ [t]) with
      | some name => .rawText name
      | none => .text) := by
  obtain ⟨first, hlast, hclosing, hname⟩ := hmode
  have hlast' : lastTag? (ts ++ [t]) = some first :=
    by rw [lastTag?_concat_of_ne (by simp [hkind]), hlast]
  have hlead : leadIntoRawText (ts ++ [t]) =
      (!tag.closing && rawTextElements.contains (Text.foldCase tag.name)) := by
    simp [leadIntoRawText, hlast', hkind, htext, opensRawText, hclosing, hname]
  rw [rawTextElement?, hlead, hlast', Scanner.afterTag]
  split
  · simp [hname]
  · rfl

end Token

/-! ## The scanner follows the tokens -/

namespace Scanner

variable {s s' : Scanner} {p : Position} {mode next : ScanMode} {gap text after w : List Char}
  {kind : TokenKind}

/-- What the scanner expects comes from the tokens before.  Raw text is expected after the start tag
of its element, and where text has just ended or the raw text of an element is over, no text is left
before the next markup. -/
structure Follows (ts : List Token) (s : Scanner) : Prop where
  mode : s.mode.ComesFrom ts
  raw : ∀ name, s.mode = .rawText name → Token.rawTextElement? ts = some name
  text : s.mode = .text → (Token.rawTextElement? ts).isSome = true ∨ Token.endWithText ts = true →
    s.rest = [] ∨ startsMarkup s.rest = true

/-- At the start no token has been read. -/
private theorem Follows.ofSource (source : List Char) : (Scanner.ofSource source).Follows [] where
  mode := trivial
  raw _ hm := nomatch hm
  text _ h := by simp [Token.rawTextElement?, Token.leadIntoRawText, Token.endWithText] at h

/-- What it takes to cut a text: a search that stops before markup, or before the end tag of the
element. -/
private theorem Cut.of_text (h : Cut p mode gap .text text after w next) :
    gap = [] ∧ after = [] ∧ next = .text ∧ text ≠ [] ∧
      (mode = .text ∧ Text.breakAt startsMarkup (text ++ w) = (text, w) ∨
        ∃ name, mode = .rawText name ∧
        Text.breakAt (startsEndTagOf name) (text ++ w) = (text, w)) := by
  cases h with
  | text hne hstop => exact ⟨rfl, rfl, rfl, hne, .inl ⟨rfl, hstop⟩⟩
  | @rawText name cs w hne hstop => exact ⟨rfl, rfl, rfl, hne, .inr ⟨name, rfl, hstop⟩⟩

/-- Text ends at the end or before markup, also where it is the raw text of an element. -/
private theorem Cut.text_stop (h : Cut p mode gap .text text after w next)
    (hraw : ∀ name, mode = .rawText name → name ∈ rawTextElements) :
    w = [] ∨ startsMarkup w = true := by
  obtain ⟨-, -, -, -, ⟨-, hstop⟩ | ⟨name, hm, hstop⟩⟩ := h.of_text
  · exact Text.stop_of_breakAt hstop
  · refine (Text.stop_of_breakAt hstop).imp_right fun hend => ?_
    exact startsMarkup_of_startsTag (startsTag_of_startsEndTagOf (hraw name hm) hend)

/-- A `>` is cut off only where an attribute might stand, and after it comes what comes after the
tag. -/
private theorem Cut.of_close (h : Cut p mode gap kind text after w next) (hkind : kind = .tagClose)
    (htext : text = ['>']) :
    ∃ tag, mode = .attributeName tag ∧ next = afterTag tag := by
  cases h with
  | @tagClose tag => exact ⟨tag, rfl, rfl⟩
  | selfClose => simp at htext
  | text | rawText | tagOpen | attrName | attrKey | quoted | bare | comment | bogus
    | doctype => cases hkind

/-- Raw text is expected only after the `>` of a tag. -/
private theorem Cut.close_of_rawText (h : Cut p mode gap kind text after w next) {name : String}
    (hnext : next = .rawText name) :
    kind = .tagClose ∧ text = ['>'] := by
  cases h with
  | tagClose => exact ⟨rfl, rfl⟩
  | attrKey => split at hnext <;> cases hnext
  | text | rawText | tagOpen | attrName | selfClose | quoted | bare | comment | bogus
    | doctype => cases hnext

/-- With every token the scanner goes on following the tokens. -/
private theorem Follows.token {ts : List Token} {t : Token} (h : s.Follows ts) (hs : s.Poised)
    (hturn : s.turn = .token t s') :
    s'.Follows (ts ++ [t]) := by
  obtain ⟨gap, after, -, hcut⟩ := turn_makesCut hs hturn
  have hmode := hcut.comesFrom h.mode rfl rfl
  by_cases hclose : t.kind = .tagClose ∧ t.text.toList = ['>']
  · -- the end of a tag, which tells whether raw text comes
    obtain ⟨tag, hm, hm'⟩ := hcut.of_close hclose.1 hclose.2
    have hnext :=
      Token.rawTextElement?_tagClose (hm ▸ h.mode) hclose.1 (String.toList_inj.mp hclose.2)
    rw [← hm'] at hnext
    refine ⟨hmode, fun name hname => ?_, fun htext hleft => ?_⟩
    · rw [hname] at hnext
      split at hnext
      · rename_i other hother
        cases hnext
        exact hother
      · cases hnext
    · rw [htext] at hnext
      rcases hleft with hsome | hend
      · obtain ⟨name, hname⟩ := Option.isSome_iff_exists.mp hsome
        rw [hname] at hnext
        cases hnext
      · simp [Token.endWithText_concat, hclose.1] at hend
  · -- no other token leads into raw text
    have hnone : Token.rawTextElement? (ts ++ [t]) = none := by
      refine Token.rawTextElement?_concat_of_ne ?_ ts
      refine (Decidable.not_and_iff_not_or_not.mp hclose).imp_right fun hne htext => ?_
      exact hne (by rw [htext]; rfl)
    refine ⟨hmode, fun name hname => ?_, fun htext hleft => ?_⟩
    · exact absurd (hcut.close_of_rawText hname) hclose
    · rcases hleft with hsome | hend
      · rw [hnone] at hsome
        cases hsome
      · have hkind : t.kind = .text := by simpa [Token.endWithText_concat] using hend
        rw [hkind] at hcut
        exact hcut.text_stop h.mode.mem_rawTextElements

/-- Without a token nothing changes but what is expected next. -/
private theorem Follows.skip {ts : List Token} (h : s.Follows ts) (hturn : s.turn = .skip s') :
    s'.Follows ts := by
  have hmode := comesFrom_of_skip hturn h.mode
  obtain ⟨-, -, hnext⟩ | ⟨name, hm, rfl, hend⟩ | ⟨tag, gap, w, hm, -, -, -, rfl⟩
      | ⟨lead, w, -, -, rfl⟩ :=
    turn_skip_cases hturn
  · -- markup is entered, which is neither text nor raw text
    refine ⟨hmode, fun name hname => ?_, fun htext _ => ?_⟩
    · obtain rfl | rfl | rfl := hnext <;> cases hname
    · obtain rfl | rfl | rfl := hnext <;> cases htext
  · -- raw text is over, and the end tag comes next
    refine ⟨hmode, fun other hother => ?_, fun _ _ => hend.imp_right fun hstarts => ?_⟩
    · cases hother
    · exact startsMarkup_of_startsTag
        (startsTag_of_startsEndTagOf (h.mode.mem_rawTextElements name hm) hstarts)
  · refine ⟨hmode, fun name hname => ?_, fun htext _ => ?_⟩
    · cases hname
    · cases htext
  · refine ⟨hmode, fun name hname => ?_, fun htext _ => ?_⟩
    · cases hname
    · cases htext

/-! ## Text -/

/-- A text is read up to the first place where it must end, and never right after another text. -/
private theorem Follows.text_token {ts : List Token} {t : Token} (h : s.Follows ts) (hs : s.Poised)
    (hturn : s.turn = .token t s') (hkind : t.kind = .text) :
    s.ahead = t.text.toList ++ s'.rest ∧ s' = ⟨s.position.advance t.text.toList, s'.rest, .text⟩ ∧
      t.location = .covering s.position t.text.toList ∧ Token.endWithText ts = false ∧
      (∀ name, Token.rawTextElement? ts = some name →
        Text.EndsAtFirst (BeginsEndTag name) t.text.toList s'.rest) ∧
      (Token.rawTextElement? ts = none → Text.EndsAtFirst BeginsMarkup t.text.toList s'.rest) := by
  obtain ⟨gap, after, hahead, hcut⟩ := turn_makesCut hs hturn
  -- a cut tells the token and the state after it completely
  have hread := hcut.turn_eq
  rw [← hahead, before_ahead, hturn] at hread
  obtain ⟨ht, hs'⟩ := Turn.token.inj hread
  rw [hkind] at hcut
  obtain ⟨rfl, rfl, hm', hne, hway⟩ := hcut.of_text
  have hlead : s.mode.lead = [] := by
    obtain ⟨hm, -⟩ | ⟨name, hm, -⟩ := hway <;> rw [hm] <;> rfl
  simp only [List.nil_append, List.append_nil] at hahead hs'
  rw [hm'] at hs'
  refine ⟨hahead, hs', congrArg Token.location ht, ?_⟩
  obtain ⟨hm, hstop⟩ | ⟨name, hm, hstop⟩ := hway
  · -- text is left here, so that neither has a text just ended nor does raw text come
    have hleft : ¬ (s.rest = [] ∨ startsMarkup s.rest = true) := by
      rw [← ahead_eq hlead, hahead]
      rintro (hnil | hmarkup)
      · exact hne (List.append_eq_nil_iff.mp hnil).1
      · have hno : startsMarkup (t.text.toList ++ s'.rest) = false :=
          Text.of_breakAt_ne_nil (by rw [hstop]; exact hne)
        rw [hno] at hmarkup
        cases hmarkup
    have hnot := fun hbefore => hleft (h.text hm hbefore)
    have hnone : Token.rawTextElement? ts = none :=
      Option.not_isSome_iff_eq_none.mp fun hsome => hnot (.inl hsome)
    refine ⟨Bool.eq_false_iff.mpr fun hend => hnot (.inr hend), fun name hname => ?_, fun _ => ?_⟩
    · rw [hnone] at hname
      cases hname
    · exact Text.endsAtFirst_of_breakAt (fun _ => startsMarkup_iff) hstop
  · -- the search was for the end tag of the element that the tokens lead into
    have hraw := h.raw name hm
    refine ⟨Token.endWithText_of_rawTextElement? hraw, fun other hother => ?_, fun hnone => ?_⟩
    · obtain rfl : name = other := Option.some.inj (hraw.symm.trans hother)
      exact Text.endsAtFirst_of_breakAt (fun _ => startsEndTagOf_iff) hstop
    · rw [hraw] at hnone
      cases hnone

/-- After raw text comes the end tag that it ends with. -/
private theorem exists_endTag {name : String} (hname : name ∈ rawTextElements) (hm : s.mode = .text)
    (h : startsEndTagOf name s.rest = true) :
    ∃ t later, s.run.tokens = t :: later ∧ t.IsEndTagOf name ∧
    t.location = .covering s.position t.text.toList := by
  obtain ⟨spelling, rest, hrest, hspelling, hstop⟩ := exists_of_startsEndTagOf h
  have halpha := isAlpha_of_mem_spelling hname hspelling
  have hskip : s.turn = .skip (s.expect .tagOpen) := by
    simp only [turn, hm]
    exact turnText_of_startsTag (startsTag_of_startsEndTagOf hname h)
  obtain ⟨c, cs, rfl, hc⟩ := exists_cons_of_spelling hname hspelling
  -- the name of the tag is the spelling, because it ends where the spelling does
  have hcut : Cut s.position (.tagName ['<', '/']) [] .tagOpen (['<', '/'] ++ c :: cs) [] rest _ :=
    .tagOpen true hc (fun x hx => isNameChar_of_isAlpha (halpha x hx)) (stops_isNameChar hstop)
  have hturn := hcut.turn_eq
  simp only [List.nil_append, List.append_nil, Position.advance_nil] at hturn
  have hlead : (s.expect .tagOpen).turn =
      .skip (before s.position (['<', '/'] ++ c :: cs ++ rest) (.tagName ['<', '/'])) := by
    have hopen : (s.expect .tagOpen).rest =
        (if true then ['<', '/'] else ['<']) ++ c :: (cs ++ rest) := hrest
    exact turnTagOpen_eq hc hopen
  generalize htoken : (⟨.tagOpen, String.ofList (['<', '/'] ++ c :: cs), _⟩ : Token) = t at hturn
  have hkind : t.kind = .tagOpen := by rw [← htoken]
  have htext : t.text.toList = ['<', '/'] ++ c :: cs := by rw [← htoken, String.toList_ofList]
  obtain ⟨hend, htag⟩ : t.isEndTag = true ∧ t.tagName = String.ofList (c :: cs) :=
    Token.of_tagOpen hkind hc htext
  have hfolded : Text.foldCase t.tagName = name := by
    have hsmall : ∀ name ∈ rawTextElements, Text.foldChars name.toList = name.toList := by decide
    apply String.toList_inj.mp
    rw [htag, Text.toList_foldCase, String.toList_ofList, ← hsmall name hname]
    exact hspelling
  have hrun := run_of_token hturn
  rw [← run_of_skip hlead, ← run_of_skip hskip] at hrun
  refine ⟨t, _, congrArg Scan.tokens hrun, ⟨hkind, hend, hfolded⟩, ?_⟩
  rw [htext, ← htoken]

/-- What follows raw text is nothing or its end tag. -/
private theorem run_after_rawText {name : String} (hname : name ∈ rawTextElements)
    (hm : s.mode = .text) (h : s.rest = [] ∨ BeginsEndTag name s.rest) :
    (s.run.tokens = [] ↔ s.rest = []) ∧
      ∀ next ∈ s.run.tokens.head?, next.IsEndTagOf name ∧
      next.location.offset = s.position.offset := by
  rcases h with hnil | hstarts
  · -- the source is over
    have hfinished : s.turn = .finished := by simp [turn, hm, turnText, hnil]
    rw [run_of_finished hfinished]
    exact ⟨iff_of_true rfl hnil, fun next hnext => by cases hnext⟩
  · obtain ⟨t, later, hrun, ht, hlocation⟩ :=
      exists_endTag hname hm (startsEndTagOf_iff.mpr hstarts)
    have hne : s.rest ≠ [] := by
      obtain ⟨spelling, rest, hcs, -⟩ := hstarts
      rw [hcs]
      exact List.cons_ne_nil _ _
    rw [hrun]
    refine ⟨iff_of_false (List.cons_ne_nil _ _) hne, fun next hnext => ?_⟩
    obtain rfl : t = next := Option.some.inj hnext
    refine ⟨ht, ?_⟩
    rw [hlocation]
    rfl

/-- The state in which a token of a source is read. -/
private theorem exists_follows {source : String} {before after : List Token} {t : Token}
    (h : (tokenize source).tokens = before ++ t :: after) :
    ∃ s s' : Scanner,
      s.Poised ∧ s.IsIn source.toList ∧ s.Follows before ∧ s.turn = .token t s' ∧
      s'.run.tokens = after := by
  obtain ⟨s, s', hs, ⟨hin, hfollows⟩, hturn, hlater⟩ :=
    exists_turn (P := fun ts s => s.IsIn source.toList ∧ s.Follows ts)
      (fun ts s s' _ h hturn => ⟨h.1.turn (by rw [hturn]; rfl), h.2.skip hturn⟩)
      (fun ts s s' t hs h hturn => ⟨h.1.turn (by rw [hturn]; rfl), h.2.token hs hturn⟩)
      (s := .ofSource source.toList) trivial [] ⟨.ofSource _, .ofSource _⟩ h
  exact ⟨s, s', hs, hin, hfollows, hturn, hlater⟩

end Scanner

/-- No text comes right after another one. -/
private theorem Token.endWithText_eq_false {source : String} {before after : List Token} {t : Token}
    (h : (tokenize source).tokens = before ++ t :: after) (hkind : t.kind = .text) :
    endWithText before = false := by
  obtain ⟨s, s', hs, -, hfollows, hturn, -⟩ := Scanner.exists_follows h
  exact (hfollows.text_token hs hturn hkind).2.2.2.1

/-- Every text of a source ends where it must and not before.  If the tokens before it end with the
`>` of a start tag of an element with raw text, then it goes up to the first end tag of this
element, which is the next token, or up to the end if there is none.  Otherwise it goes up to the
next markup or to the end.  No text is next to another one. -/
theorem tokenize_text_exact {source : String} {before after : List Token} {t : Token}
    (h : (tokenize source).tokens = before ++ t :: after) (hkind : t.kind = .text) :
    ∃ pre post, source.toList = pre ++ t.text.toList ++ post ∧
      t.location = .covering (Position.start.advance pre) t.text.toList ∧
      (∀ name, Token.rawTextElement? before = some name →
        Text.EndsAtFirst (BeginsEndTag name) t.text.toList post ∧ (after = [] ↔ post = []) ∧
          ∀ next ∈ after.head?, next.IsEndTagOf name ∧ next.location.offset = t.location.stop) ∧
      (Token.rawTextElement? before = none → Text.EndsAtFirst BeginsMarkup t.text.toList post) ∧
      Token.endWithText before = false ∧ ∀ next ∈ after.head?, next.kind ≠ .text := by
  obtain ⟨s, s', hs, hin, hfollows, hturn, rfl⟩ := Scanner.exists_follows h
  obtain ⟨pre, hsource, hposition⟩ := hin.reached
  obtain ⟨hahead, hs', hlocation, hend, hraw, htext⟩ := hfollows.text_token hs hturn hkind
  refine ⟨pre, s'.rest, ?_, ?_, fun name hname => ⟨hraw name hname, ?_⟩, htext, hend, ?_⟩
  · rw [hsource, hahead, List.append_assoc]
  · rw [hlocation, hposition]
  · have hm' : s'.mode = .text := by rw [hs']
    have hstop : t.location.stop = s'.position.offset := by
      rw [hlocation, hs', Position.offset_advance]
      rfl
    rw [hstop]
    exact Scanner.run_after_rawText (Token.mem_rawTextElements hname) hm' (hraw name hname).stop
  · intro next hnext hkind'
    obtain ⟨later, hlater⟩ := List.head?_eq_some_iff.mp hnext
    -- seen from the next token, this one would be a text just before it
    rw [hlater, List.append_cons] at h
    have hadjacent := Token.endWithText_eq_false h hkind'
    simp [Token.endWithText_concat, hkind] at hadjacent

/-- The content of a script goes past two end tags that are not its own, up to one with capitals.
The text after it goes past a `<` before a blank, up to a tag. -/
theorem tokenize_text_exact_script :
    let source := "<script>a</scriptx></b></SCRIPT >1 < 2<b>"
    let ts := (tokenize source).tokens
    ∃ raw next text, ts[2]? = some raw ∧ raw.text = "a</scriptx></b>" ∧ ts[3]? = some next ∧
    ts[5]? = some text ∧
      text.text = "1 < 2" ∧ Token.rawTextElement? (ts.take 2) = some "script" ∧
      next.IsEndTagOf "script" ∧
      Token.rawTextElement? (ts.take 5) = none ∧
      (∃ pre post, source.toList = pre ++ raw.text.toList ++ post ∧
        Text.EndsAtFirst (BeginsEndTag "script") raw.text.toList post) ∧
      ∃ pre post, source.toList = pre ++ text.text.toList ++ post ∧
        Text.EndsAtFirst BeginsMarkup text.text.toList post := by
  intro source ts
  have hsplit : ∀ {i : Nat} {t : Token}, ts[i]? = some t →
      ts = ts.take i ++ t :: ts.drop (i + 1) := by
    intro i t ht
    obtain ⟨hlt, rfl⟩ := List.getElem?_eq_some_iff.mp ht
    rw [← List.drop_eq_getElem_cons hlt, List.take_append_drop]
  have hshapes : [2, 3, 5].map (fun i => ts[i]?.map fun t => (t.kind, t.text)) =
      [some (.text, "a</scriptx></b>"), some (.tagOpen, "</SCRIPT"), some (.text, "1 < 2")] := by
    decide +kernel
  simp only [List.map_cons, List.map_nil, List.cons.injEq, and_true, Option.map_eq_some_iff,
    Prod.mk.injEq] at hshapes
  obtain ⟨⟨raw, hraw, hrawKind, hrawText⟩, ⟨next, hnext, -⟩, text, htext, htextKind, htextText⟩ :=
    hshapes
  have hscript : Token.rawTextElement? (ts.take 2) = some "script" := by decide +kernel
  have hplain : Token.rawTextElement? (ts.take 5) = none := by decide +kernel
  obtain ⟨pre, post, hsource, -, hends, -⟩ := tokenize_text_exact (hsplit hraw) hrawKind
  obtain ⟨hfirst, -, hafter⟩ := hends "script" hscript
  obtain ⟨pre', post', hsource', -, -, hends', -⟩ := tokenize_text_exact (hsplit htext) htextKind
  have hhead : (ts.drop 3).head? = some next := by rw [List.head?_drop, hnext]
  exact ⟨raw, next, text, hraw, hrawText, hnext, htext, htextText, hscript,
    (hafter next hhead).1, hplain,
    ⟨pre, post, hsource, hfirst⟩, pre', post', hsource', hends' hplain⟩

end HtmlLint
