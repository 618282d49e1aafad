import HtmlLint.Proofs.Token.Concatenation

/-!
# Tokens written anew

`Token.canonical` writes tokens one after the other with as little between them as there can be: one
blank before the name of an attribute and before the end of a tag, and an equals sign between a name
and its value.  Whatever the source was that the tokens come from, and whatever stood between them
there, the new text has the same tokens: `tokenize_canonical`.

The scanner makes the same cuts in the new text as in the source (`Scanner.Cut.rewrite`).  For that
the new text must go on after each token in a way that the scanner cannot tell from the source:
`ScanMode.Resumes`.
-/

namespace HtmlLint

/-! ## The canonical text -/

/-- What is written before a token. -/
def TokenKind.lead (kind : TokenKind) : List Char :=
  if kind == .attrName || kind == .tagClose then [' '] else []

/-- What is written after a token, which a value may follow. -/
def TokenKind.mark (kind : TokenKind) (valued : Bool) : List Char :=
  if kind == .attrName && valued then ['='] else []

namespace Token

/-- The tokens go on with a value. -/
def beginWithValue (ts : List Token) : Bool :=
  ts.head?.any (·.kind == .attrValue)

/-- The tokens written one after the other. -/
def canonical : List Token → List Char
  | [] => []
  | t :: ts => t.kind.lead ++ t.text.toList ++ t.kind.mark (beginWithValue ts) ++ canonical ts

/-- A token that is neither an attribute nor the end of a tag is written as it is. -/
private theorem canonical_cons_of_ne {t : Token} (hname : t.kind ≠ .attrName)
    (hclose : t.kind ≠ .tagClose) (ts : List Token) :
    canonical (t :: ts) = t.text.toList ++ canonical ts := by
  simp [canonical, TokenKind.lead, TokenKind.mark, hname, hclose]

/-- An attribute and the end of a tag are written after a blank. -/
private theorem canonical_cons_of_lead {t : Token} (h : t.kind = .attrName ∨ t.kind = .tagClose)
    (ts : List Token) :
    canonical (t :: ts) =
      ' ' :: t.text.toList ++ (t.kind.mark (beginWithValue ts) ++ canonical ts) := by
  obtain h | h := h <;> simp [canonical, TokenKind.lead, h]

end Token

/-! ## Characters of names -/

/-- A blank cannot stand in a name. -/
private theorem not_isNameChar_of_isBlank {c : Char} (h : Text.isBlank c = true) :
    isNameChar c = false :=
  Text.eq_false_of_isBlank (by decide +kernel) h

/-- What ends the name in an end tag ends every name. -/
theorem stops_isNameChar {cs : List Char}
    (h : Text.Stops (fun c => !(Text.isBlank c || c == '>' || c == '/')) cs) :
    Text.Stops isNameChar cs := by
  intro c hc
  have hend : ((Text.isBlank c || c == '>') || c == '/') = true := by
    simpa only [Bool.not_eq_false'] using h c hc
  simp only [Bool.or_eq_true, beq_iff_eq] at hend
  obtain (hblank | rfl) | rfl := hend
  · exact not_isNameChar_of_isBlank hblank
  · decide
  · decide

/-- A spelling of the name of an element with raw text is a name. -/
theorem isAlpha_of_mem_spelling {name : String} (hname : name ∈ rawTextElements)
    {spelling : List Char} (hspelling : spelling.map Char.toLower = name.toList.map Char.toLower) :
    ∀ c ∈ spelling, c.isAlpha = true := by
  intro c hc
  have hall : ∀ name ∈ rawTextElements, (name.toList.map Char.toLower).all Char.isAlpha =
      true := by decide
  have hmem := List.mem_map_of_mem (f := Char.toLower) hc
  rw [hspelling] at hmem
  exact Text.isAlpha_of_toLower (List.all_eq_true.mp (hall name hname) _ hmem)

/-! ## What the scanner cannot tell apart -/

/-- In this mode the scanner can go on with `v` as it does with `w`, as far as the token before can
tell: inside a tag a blank comes first, or a value; and text goes up to the same kind of markup. -/
def ScanMode.Resumes (w v : List Char) : ScanMode → Prop
  | attributeName _ => ∃ c cs, v = ' ' :: c :: cs ∧ Text.isBlank c = false ∧ c ≠ '='
  | attributeValue _ => ∃ c cs, v = c :: cs ∧ Text.isBlank c = false ∧ c ≠ '>'
  | text =>
    (w = [] → v = []) ∧ (startsMarkup w = true → startsMarkup v = true) ∧
      ∀ name ∈ rawTextElements, startsEndTagOf name w = true → startsEndTagOf name v = true ∧
        ∃ a x y, w = a ++ x ∧ v = a ++ y ∧ name.toList.length + 2 ≤ a.length
  | _ => True

/-- The mode with another beginning of the tag. -/
def ScanMode.beginningAt (q : Position) : ScanMode → ScanMode
  | attributeName tag => attributeName { tag with start := q }
  | attributeValue tag => attributeValue { tag with start := q }
  | mode => mode

/-- A value is expected. -/
def ScanMode.expectsValue : ScanMode → Bool
  | attributeValue _ => true
  | _ => false

namespace Scanner

variable {s s' : Scanner} {p : Position} {mode next : ScanMode} {gap text after w : List Char}
  {kind : TokenKind}

/-- After a blank there is no equals sign. -/
private theorem stops_equals {c : Char} {cs : List Char} (hc : Text.isBlank c = false)
    (hequals : c ≠ '=') :
    Text.Stops (· == '=') ((' ' :: c :: cs).dropWhile Text.isBlank) := by
  rw [List.dropWhile_cons_of_pos (by decide), List.dropWhile_cons_of_neg (by simp [hc])]
  exact .cons (by simpa using hequals)

/-- What is expected after a tag does not depend on where the tag began. -/
private theorem afterTag_beginningAt (tag : TagInProgress) (q : Position) :
    (afterTag tag).beginningAt q = afterTag tag := by
  obtain htext | ⟨name, hname⟩ := afterTag_cases tag
  · rw [htext]
    rfl
  · rw [hname]
    rfl

/-- Text goes as far in the new text. -/
private theorem breakAt_startsMarkup_of_resumes {v : List Char}
    (hstop : Text.breakAt startsMarkup (text ++ w) = (text, w)) (hv : ScanMode.text.Resumes w v) :
    Text.breakAt startsMarkup (text ++ v) = (text, v) := by
  obtain ⟨hnil, hmarkup, -⟩ := hv
  have hend := Text.stop_of_breakAt hstop
  apply Text.breakAt_swap hstop (hend.imp hnil hmarkup)
  intro c a hno
  obtain rfl | hstarts := hend
  · rwa [hnil rfl]
  · -- in both texts a `<` comes next
    obtain ⟨w, rfl⟩ := exists_of_startsMarkup hstarts
    obtain ⟨v, rfl⟩ := exists_of_startsMarkup (hmarkup hstarts)
    rwa [← startsMarkup_lt_congr c a w v]

/-- Raw text goes as far in the new text. -/
private theorem breakAt_startsEndTagOf_of_resumes {name : String} (hname : name ∈ rawTextElements)
    {v : List Char} (hstop : Text.breakAt (startsEndTagOf name) (text ++ w) = (text, w))
    (hv : ScanMode.text.Resumes w v) :
    Text.breakAt (startsEndTagOf name) (text ++ v) = (text, v) := by
  obtain ⟨hnil, -, htag⟩ := hv
  have hend := Text.stop_of_breakAt hstop
  apply Text.breakAt_swap hstop (hend.imp hnil fun hstarts => (htag name hname hstarts).1)
  intro c a hno
  obtain rfl | hstarts := hend
  · rwa [hnil rfl]
  · -- in both texts the end tag comes next with the same spelling
    obtain ⟨-, b, x, y, rfl, rfl, hlength⟩ := htag name hname hstarts
    rw [← List.append_assoc] at hno ⊢
    have hlong : name.toList.length + 3 ≤ (c :: a ++ b).length := by
      simp only [List.cons_append, List.length_cons, List.length_append]
      omega
    rwa [← startsEndTagOf_append_congr hlong x y]

/-- The same token is cut from the new text, and leads to the same mode. -/
theorem Cut.rewrite (h : Cut p mode gap kind text after w next)
    (hraw : ∀ name, mode = .rawText name → name ∈ rawTextElements) {v : List Char}
    (hv : next.Resumes w v) (p' q : Position) :
    ∃ q', Cut p' (mode.beginningAt q) kind.lead kind text (kind.mark next.expectsValue) v
      (next.beginningAt q') := by
  have hblank : ∀ x ∈ [' '], Text.isBlank x = true := by
    intro x hx
    rw [List.mem_singleton.mp hx]
    rfl
  have hnone : ∀ x ∈ [], Text.isBlank x = true := by simp
  -- gaps are rewritten to one blank or none; what stops a text or a name has to stop it still
  cases h with
  | text hne hstop => exact ⟨q, .text hne (breakAt_startsMarkup_of_resumes hstop hv)⟩
  | rawText hne hstop =>
    exact ⟨q, .rawText hne (breakAt_startsEndTagOf_of_resumes (hraw _ rfl) hstop hv)⟩
  | tagOpen closing hc hname hstop =>
    obtain ⟨c, cs, rfl, -⟩ := hv
    exact ⟨p', .tagOpen closing hc hname (.cons (by decide))⟩
  | attrName hgap hne hname hstop hnext =>
    obtain ⟨c, cs, rfl, hc, hequals⟩ := hv
    exact ⟨q, .attrName hblank hne hname (.cons (by decide)) (stops_equals hc hequals)⟩
  | @attrKey tag _ _ _ _ hgap hne hname hgap' =>
    by_cases hdangling : Text.startsWith (w.dropWhile Text.isBlank) ">" = true
    · -- the equals sign is left out if no value follows
      simp only [if_pos hdangling] at hv ⊢
      obtain ⟨c, cs, rfl, hc, hequals⟩ := hv
      exact ⟨q, .attrName hblank hne hname (.cons (by decide)) (stops_equals hc hequals)⟩
    · simp only [if_neg hdangling] at hv ⊢
      -- a value follows, and it begins with no `>`
      obtain ⟨c, cs, rfl, hc, hangle⟩ := hv
      have hvalue : Text.startsWith ((c :: cs).dropWhile Text.isBlank) ">" = false := by
        simp [Text.startsWith, List.isPrefixOf, hc, hangle.symm]
      refine ⟨q, ?_⟩
      have hcut : Cut p' (.attributeName { tag with start := q }) [' '] .attrName text
          ([] ++ ['=']) (c :: cs) _ :=
        .attrKey hblank hne hname hnone
      rw [hvalue] at hcut
      exact hcut
  | @tagClose tag _ _ hgap =>
    refine ⟨q, ?_⟩
    rw [afterTag_beginningAt]
    exact @Cut.tagClose p' { tag with start := q } _ v hblank
  | selfClose hgap => exact ⟨q, .selfClose hblank⟩
  | quoted hgap hq hinner => exact ⟨q, .quoted hnone hq hinner⟩
  | bare hgap hc hvalue hstop =>
    obtain ⟨c, cs, rfl, -⟩ := hv
    exact ⟨q, .bare hnone hc hvalue (.cons (by decide))⟩
  | comment hstop =>
    refine ⟨q, .comment
      (Text.breakAt_swap hstop (.inr (by simp [Text.startsWith])) fun c a hno => ?_)⟩
    rw [← List.append_assoc] at hno ⊢
    rwa [Text.startsWith_append_congr_of_length "-->" (by simp) v w]
  | @bogus body _ hbody hno =>
    refine ⟨q, .bogus hbody ?_⟩
    rw [startsWith_comment_congr body v w]
    exact hno
  | doctype hbody => exact ⟨q, .doctype hbody⟩

/-! ## What the new text goes on with -/

/-- A token cut off where the name of an attribute may stand does not begin with a blank or a `=`.
-/
private theorem Cut.first_of_attributeName {tag : TagInProgress}
    (h : Cut p (.attributeName tag) gap kind text after w next) :
    (kind = .attrName ∨ kind = .tagClose) ∧ ∃ c cs, text = c :: cs ∧
    Text.isBlank c = false ∧ c ≠ '=' := by
  have hkey : ∀ {name : List Char}, name ≠ [] → (∀ x ∈ name, endsAttrName x = false) →
      ∃ c cs, name = c :: cs ∧ Text.isBlank c = false ∧ c ≠ '=' := by
    intro name hne hname
    obtain ⟨c, cs, rfl⟩ := List.exists_cons_of_ne_nil hne
    have hc := hname c (List.mem_cons_self ..)
    exact ⟨c, cs, rfl, isBlank_of_not_endsAttrName hc, by rintro rfl; exact absurd hc (by decide)⟩
  cases h with
  | attrName hgap hne hname => exact ⟨.inl rfl, hkey hne hname⟩
  | attrKey hgap hne hname => exact ⟨.inl rfl, hkey hne hname⟩
  | tagClose => exact ⟨.inr rfl, '>', [], rfl, by decide, by decide⟩
  | selfClose => exact ⟨.inr rfl, '/', ['>'], rfl, by decide, by decide⟩

/-- A token cut off where a value may stand is a value, and does not begin with a blank or a `>`. -/
private theorem Cut.first_of_attributeValue {tag : TagInProgress}
    (h : Cut p (.attributeValue tag) gap kind text after w next) :
    kind = .attrValue ∧ ∃ c cs, text = c :: cs ∧ Text.isBlank c = false ∧ c ≠ '>' := by
  cases h with
  | @quoted _ _ inner _ q hgap hq hinner =>
    refine ⟨rfl, q, inner ++ [q], rfl, ?_⟩
    obtain rfl | rfl := hq <;> decide
  | @bare _ c _ cs _ hgap hc hvalue hstop =>
    have hbare := hvalue c (List.mem_cons_self ..)
    simp only [endsBareValue, Bool.or_eq_false_iff, beq_eq_false_iff_ne] at hbare
    exact ⟨rfl, c, cs, rfl, hbare⟩

/-- In a tag the tokens go on with an attribute or with the end of the tag. -/
private theorem first_of_attributeName (hs : s.Poised) {tag : TagInProgress}
    (hm : s.mode = .attributeName tag) (hfailure : s.run.failure = none) :
    ∃ t ts, s.run.tokens = t :: ts ∧ (t.kind = .attrName ∨ t.kind = .tagClose) ∧
      ∃ c cs, t.text.toList = c :: cs ∧ Text.isBlank c = false ∧ c ≠ '=' := by
  fun_induction run s with
  | case1 s t s' hturn later =>
    obtain ⟨gap, after, -, hcut⟩ := turn_makesCut hs hturn
    rw [hm] at hcut
    exact ⟨t, _, rfl, hcut.first_of_attributeName⟩
  | case2 s s' hturn ih =>
    -- only a slash is passed over
    have hm' : s'.mode = .attributeName tag := by
      obtain ⟨htext, -⟩ | ⟨name, hraw, -⟩ | ⟨tag', gap, w, htag, -, -, -, rfl⟩
          | ⟨lead, w, hopen, -⟩ :=
        turn_skip_cases hturn
      · rw [hm] at htext
        cases htext
      · rw [hm] at hraw
        cases hraw
      · rw [hm] at htag
        cases htag
        rfl
      · rw [hm] at hopen
        cases hopen
    exact ih (hs.skip hturn) hm' hfailure
  | case3 s e hturn => cases hfailure
  | case4 s hturn =>
    have htext := mode_of_finished hs hturn
    rw [hm] at htext
    cases htext

/-- Where neither text nor the beginning of a tag nor an attribute is expected, a token comes at
once. -/
private theorem exists_token (hs : s.Poised) (hfailure : s.run.failure = none)
    (htext : s.mode ≠ .text) (hraw : ∀ name, s.mode ≠ .rawText name)
    (htag : ∀ tag, s.mode ≠ .attributeName tag) (hopen : s.mode ≠ .tagOpen) :
    ∃ t s', s.turn = .token t s' ∧ s.run = ⟨t :: s'.run.tokens, s'.run.failure⟩ := by
  cases hturn : s.turn with
  | token t s' => exact ⟨t, s', rfl, run_of_token hturn⟩
  | skip s' =>
    obtain ⟨hm, -⟩ | ⟨name, hm, -⟩ | ⟨tag, -, -, hm, -⟩ | ⟨-, -, hm, -⟩ := turn_skip_cases hturn
    · exact absurd hm htext
    · exact absurd hm (hraw name)
    · exact absurd hm (htag tag)
    · exact absurd hm hopen
  | fault e =>
    rw [run_of_fault hturn] at hfailure
    cases hfailure
  | finished => exact absurd (mode_of_finished hs hturn) htext

/-- Where markup begins there are no gaps, and what is cut off is no attribute and no end of a tag.
-/
private theorem Cut.of_markup (h : Cut p mode gap kind text after w next)
    (hm : mode = .comment ∨ mode = .doctype ∨ ∃ lead, mode = .tagName lead) :
    gap = [] ∧ after = [] ∧ kind ≠ .attrName ∧ kind ≠ .tagClose := by
  cases h with
  | text | rawText | attrName | attrKey | tagClose | selfClose | quoted | bare => simp at hm
  | tagOpen | comment | bogus | doctype => simp

/-- Markup begins with a token of its own, in the source and in the new text. -/
private theorem exists_token_of_markup (hs : s.Poised) (hfailure : s.run.failure = none)
    (hm : s.mode = .comment ∨ s.mode = .doctype ∨ ∃ lead, s.mode = .tagName lead) :
    ∃ (t : Token) (s' : Scanner), s'.Poised ∧ s'.run.failure = none ∧
    s.ahead = t.text.toList ++ s'.rest ∧
      Token.canonical s.run.tokens = t.text.toList ++ Token.canonical s'.run.tokens ∧
      Cut s.position s.mode [] t.kind t.text.toList [] s'.rest s'.mode := by
  obtain ⟨t, s', hturn, hrun⟩ : ∃ t s', s.turn = .token t s' ∧
      s.run = ⟨t :: s'.run.tokens, s'.run.failure⟩ := by
    refine exists_token hs hfailure ?_ ?_ ?_ ?_ <;> obtain hm | hm | ⟨lead, hm⟩ := hm <;> simp [hm]
  obtain ⟨gap, after, hrest, hcut⟩ := turn_makesCut hs hturn
  obtain ⟨rfl, rfl, hname, hclose⟩ := hcut.of_markup hm
  rw [hrun] at hfailure ⊢
  exact ⟨t, s', hs.token hturn, hfailure, by simpa using hrest,
    Token.canonical_cons_of_ne hname hclose _, hcut⟩

/-- A tag begins where `<` or `</` stands before a letter. -/
theorem startsTag_of_lead (closing : Bool) {c : Char} (hc : c.isAlpha = true) (cs : List Char) :
    startsTag ((if closing then ['<', '/'] else ['<']) ++ c :: cs) = true := by
  cases closing with
  | true => simpa [startsTag] using hc
  | false => exact startsTag_of_isAlpha hc

/-- A spelling of the name of an element with raw text begins with a letter. -/
theorem exists_cons_of_spelling {name : String} (hname : name ∈ rawTextElements)
    {spelling : List Char} (hspelling : spelling.map Char.toLower = name.toList.map Char.toLower) :
    ∃ c cs, spelling = c :: cs ∧ c.isAlpha = true := by
  have halpha := isAlpha_of_mem_spelling hname hspelling
  obtain ⟨c, cs, rfl⟩ : ∃ c cs, spelling = c :: cs := by
    refine List.exists_cons_of_ne_nil fun hnil => ?_
    have hall : ∀ name ∈ rawTextElements, name.toList.map Char.toLower ≠ [] := by decide
    exact hall name hname (by rw [← hspelling, hnil]; rfl)
  exact ⟨c, cs, rfl, halpha c (List.mem_cons_self ..)⟩

/-- An end tag of an element with raw text is a tag. -/
theorem startsTag_of_startsEndTagOf {name : String} (hname : name ∈ rawTextElements)
    {cs : List Char} (h : startsEndTagOf name cs = true) : startsTag cs = true := by
  obtain ⟨spelling, rest, rfl, hspelling, -⟩ := exists_of_startsEndTagOf h
  obtain ⟨c, cs, rfl, hc⟩ := exists_cons_of_spelling hname hspelling
  exact startsTag_of_lead true hc _

/-- Comments and doctypes go up to a `>`. -/
private theorem Cut.angle_mem_of_mode (h : Cut p mode gap kind text after w next)
    (hm : mode = .comment ∨ mode = .doctype) :
    '>' ∈ text := by
  cases h with
  | text | rawText | tagOpen | attrName | attrKey | tagClose | selfClose | quoted
    | bare => simp at hm
  | comment | bogus | doctype => simp

/-- After what has been read of a tag there comes a letter. -/
private theorem Cut.of_tagName {lead : List Char}
    (h : Cut p (.tagName lead) gap kind text after w next) :
    ∃ (closing : Bool) (c : Char) (cs : List Char), c.isAlpha = true ∧
      lead = (if closing then ['<', '/'] else ['<']) ∧ text = lead ++ c :: cs := by
  cases h with
  | @tagOpen c cs _ closing hc => exact ⟨closing, c, cs, hc, rfl, rfl⟩

/-- The beginning of a tag takes two turns.  It begins with a token of its own, as other markup
does. -/
private theorem exists_token_of_tagOpen (hs : s.Poised) (hm : s.mode = .tagOpen)
    (hfailure : s.run.failure = none) :
    ∃ (s₁ : Scanner) (lead : List Char) (t : Token) (s' : Scanner),
      s.turn = .skip s₁ ∧ s₁.mode = .tagName lead ∧ s'.Poised ∧ s'.run.failure = none ∧
      s.rest = t.text.toList ++ s'.rest ∧
      Token.canonical s.run.tokens = t.text.toList ++ Token.canonical s'.run.tokens ∧
      Cut s.position (.tagName lead) [] t.kind t.text.toList [] s'.rest s'.mode := by
  have hturn : s.turn = s.turnTagOpen := by simp only [turn, hm]
  have hlead : s.turnTagOpen.next?.map ahead = some s.rest :=
    congrArg some (List.take_append_drop _ s.rest)
  simp only [turnTagOpen] at hturn hlead
  rw [run_of_skip hturn] at hfailure ⊢
  obtain ⟨t, s', hs', hlater, hahead, hcanonical, hcut⟩ :=
    exists_token_of_markup (hs.skip hturn) hfailure (.inr (.inr ⟨_, rfl⟩))
  exact ⟨_, _, t, s', hturn, rfl, hs', hlater, (Option.some.inj hlead).symm.trans hahead,
    hcanonical, hcut⟩

/-- Where the source goes from text to markup, the new text does so. -/
private theorem turnText_canonical (hm : s.mode = .text) (h : s.turn = .skip s')
    (hfailure : s.run.failure = none) (p : Position) :
    turnText ⟨p, Token.canonical s.run.tokens, .text⟩ =
      .skip ⟨p, Token.canonical s.run.tokens, s'.mode⟩ := by
  have hs : s.Poised := by simp [Poised, hm]
  have hs' : s'.Poised := hs.skip h
  obtain ⟨-, htext, hnext⟩ | ⟨name, hraw, -⟩ | ⟨tag, gap, w, htag, -⟩ | ⟨lead, w, hopen, -⟩ :=
    turn_skip_cases h
  · rw [run_of_skip h] at hfailure ⊢
    -- what begins a comment or a doctype goes up to a `>`
    have hclosed : s'.mode = .comment ∨ s'.mode = .doctype → s' = s.expect s'.mode →
        turnText ⟨p, Token.canonical s'.run.tokens, .text⟩ =
          .skip ⟨p, Token.canonical s'.run.tokens, s'.mode⟩ := by
      intro hm' hexpect
      obtain ⟨t, s'', -, -, hahead, hcanonical, hcut⟩ :=
        exists_token_of_markup hs' hfailure (hm'.imp_right .inl)
      have hlead : s'.mode.lead = [] := by obtain hm' | hm' := hm' <;> rw [hm'] <;> rfl
      have hsame : s'.rest = s.rest := by rw [hexpect]; rfl
      rw [ahead_eq hlead, hsame] at hahead
      have heq : s = ⟨s.position, t.text.toList ++ s''.rest, s.mode⟩ := by rw [← hahead]
      rw [heq] at htext
      rw [hcanonical]
      exact turnText_congr (hcut.angle_mem_of_mode hm') htext p .text _
    obtain rfl | rfl | rfl := hnext
    · exact hclosed (.inl rfl) rfl
    · exact hclosed (.inr rfl) rfl
    · obtain ⟨s₁, lead, t, s'', -, -, -, -, -, hcanonical, hcut⟩ :=
        exists_token_of_tagOpen hs' rfl hfailure
      obtain ⟨closing, c, cs, hc, rfl, htext⟩ := hcut.of_tagName
      rw [hcanonical, htext, List.append_assoc]
      exact turnText_of_startsTag (startsTag_of_lead closing hc _)
  · rw [hm] at hraw
    cases hraw
  · rw [hm] at htag
    cases htag
  · rw [hm] at hopen
    cases hopen

/-- In a tag the new text goes on with a blank, and then with what is neither a blank nor an equals
sign. -/
private theorem canonical_of_attributeName (hs : s.Poised) {tag : TagInProgress}
    (hm : s.mode = .attributeName tag) (hfailure : s.run.failure = none) :
    ∃ c cs, Token.canonical s.run.tokens = ' ' :: c :: cs ∧ Text.isBlank c = false ∧ c ≠ '=' := by
  obtain ⟨t, ts, htokens, hkind, c, cs, htext, hc⟩ := first_of_attributeName hs hm hfailure
  refine ⟨c, cs ++ (t.kind.mark (Token.beginWithValue ts) ++ Token.canonical ts), ?_, hc⟩
  rw [htokens, Token.canonical_cons_of_lead hkind, htext]
  rfl

/-- The end tag that begins with the spelling of a name has just this name. -/
private theorem Cut.name_eq {lead : List Char}
    (h : Cut p (.tagName lead) gap kind text after w next) {spelling rest : List Char}
    (hspelling : ∀ c ∈ spelling, isNameChar c = true) (hrest : Text.Stops isNameChar rest)
    (heq : text ++ w = '<' :: '/' :: spelling ++ rest) :
    text = '<' :: '/' :: spelling ∧ ∃ tag, next = .attributeName tag := by
  cases h with
  | @tagOpen c cs _ closing hc hname hstop =>
    cases closing with
    | true =>
      simp only [if_true, List.cons_append, List.nil_append, List.cons.injEq, true_and] at heq ⊢
      have htake := Text.takeWhile_append_of_stops hname hstop
      rw [List.cons_append, heq, Text.takeWhile_append_of_stops hspelling hrest] at htake
      exact ⟨htake.symm, _, rfl⟩
    | false =>
      simp only [Bool.false_eq_true, if_false, List.cons_append, List.nil_append, List.cons.injEq,
        true_and] at heq
      rw [heq.1] at hc
      cases hc

/-- The end of raw text is the same in the new text. -/
private theorem canonical_of_startsEndTagOf (hm : s.mode = .text) (hfailure : s.run.failure = none)
    {name : String} (hname : name ∈ rawTextElements) (h : startsEndTagOf name s.rest = true) :
    ∃ spelling rest later, spelling.map Char.toLower = name.toList.map Char.toLower ∧
      s.rest = '<' :: '/' :: spelling ++ rest ∧
      Token.canonical s.run.tokens = '<' :: '/' :: spelling ++ ' ' :: later := by
  obtain ⟨spelling, rest, hrest, hspelling, hstop⟩ := exists_of_startsEndTagOf h
  have halpha := isAlpha_of_mem_spelling hname hspelling
  -- a tag begins here
  have hturn : s.turn = .skip (s.expect .tagOpen) := by
    simp only [turn, hm]
    exact turnText_of_startsTag (startsTag_of_startsEndTagOf hname h)
  rw [run_of_skip hturn] at hfailure ⊢
  -- and its name is the spelling
  have hs : s.Poised := by simp [Poised, hm]
  obtain ⟨-, lead, t, s', -, -, hs', hfailure', hrest', hcanonical, hcut⟩ :=
    exists_token_of_tagOpen (hs.skip hturn) rfl hfailure
  obtain ⟨htext, tag, hm'⟩ :=
    hcut.name_eq (fun c hc => isNameChar_of_isAlpha (halpha c hc)) (stops_isNameChar hstop)
    (hrest'.symm.trans hrest)
  obtain ⟨c, cs, hlater, -⟩ := canonical_of_attributeName hs' hm' hfailure'
  exact ⟨spelling, rest, c :: cs, hspelling, hrest, by rw [hcanonical, htext, hlater]⟩

/-- Where the source goes on without failure, the new text resumes it. -/
private theorem canonical_resumes (hs : s.Poised) (hfailure : s.run.failure = none) :
    s.mode.Resumes s.rest (Token.canonical s.run.tokens) := by
  cases hm : s.mode with
  | attributeName tag => exact canonical_of_attributeName hs hm hfailure
  | attributeValue tag =>
    obtain ⟨t, s', hturn, hrun⟩ :=
      exists_token hs hfailure (by simp [hm]) (by simp [hm]) (by simp [hm]) (by simp [hm])
    obtain ⟨gap, after, -, hcut⟩ := turn_makesCut hs hturn
    rw [hm] at hcut
    obtain ⟨hkind, c, cs, htext, hc⟩ := hcut.first_of_attributeValue
    refine ⟨c, cs ++ Token.canonical s'.run.tokens, ?_, hc⟩
    rw [hrun, Token.canonical_cons_of_ne (by simp [hkind]) (by simp [hkind]), htext]
    rfl
  | text =>
    -- text is stopped by the end, by markup or, if it is raw, by its own end tag
    refine ⟨fun hnil => ?_, fun hmarkup => ?_, fun name hname hend => ?_⟩
    · rw [run_of_finished (by simp [turn, hm, turnText, hnil])]
      rfl
    · obtain ⟨s', hskip⟩ := turnText_skip_iff.mpr hmarkup
      have hturn : s.turn = .skip s' := by simpa only [turn, hm] using hskip
      exact turnText_skip_iff.mp ⟨_, turnText_canonical hm hturn hfailure s.position⟩
    · obtain ⟨spelling, rest, later, hspelling, hrest, hcanonical⟩ :=
        canonical_of_startsEndTagOf hm hfailure hname hend
      have hlength : name.toList.length = spelling.length :=
        by simpa using congrArg List.length hspelling.symm
      rw [hrest, hcanonical]
      refine ⟨startsEndTagOf_of_spelling hspelling (.cons (by decide)), _, rest, ' ' :: later,
        rfl, rfl, ?_⟩
      simp only [List.length_cons]
      omega
  | tagOpen => trivial
  | tagName lead => trivial
  | comment => trivial
  | doctype => trivial
  | rawText name => trivial
  | failed => trivial

/-! ## The run over the new text -/

/-- After the name of an attribute the scanner is still inside the tag. -/
private theorem Cut.next_of_attrName (h : Cut p mode gap kind text after w next)
    (hkind : kind = .attrName) :
    ∃ tag, next = .attributeName tag ∨ next = .attributeValue tag := by
  cases h with
  | text | rawText | tagOpen | tagClose | selfClose | quoted | bare | comment | bogus
    | doctype => cases hkind
  | @attrName tag => exact ⟨tag, .inl rfl⟩
  | @attrKey tag =>
    refine ⟨tag, ?_⟩
    split
    · exact .inl rfl
    · exact .inr rfl

/-- Where a value is expected, the tokens go on with one. -/
private theorem mark_eq (hs : s.Poised) {t : Token} (h : s.turn = .token t s')
    (hfailure : s'.run.failure = none) :
    t.kind.mark (Token.beginWithValue s'.run.tokens) = t.kind.mark s'.mode.expectsValue := by
  by_cases hkind : t.kind = .attrName
  · have hs' : s'.Poised := hs.token h
    obtain ⟨gap, after, -, hcut⟩ := turn_makesCut hs h
    congr 1
    obtain ⟨tag, hm | hm⟩ := hcut.next_of_attrName hkind
    · obtain ⟨u, us, htokens, hu, -⟩ := first_of_attributeName hs' hm hfailure
      obtain hu | hu := hu <;> simp [Token.beginWithValue, htokens, hu, hm, ScanMode.expectsValue]
    · obtain ⟨u, s'', hturn, hrun⟩ :=
        exists_token hs' hfailure (by simp [hm]) (by simp [hm]) (by simp [hm]) (by simp [hm])
      obtain ⟨_, _, -, hcut'⟩ := turn_makesCut hs' hturn
      rw [hm] at hcut'
      simp [Token.beginWithValue, hrun, hcut'.first_of_attributeValue.1, hm, ScanMode.expectsValue]
  · simp [TokenKind.mark, hkind]

/-- A turn without a token leaves nothing behind in the new text: there the scanner makes the same
turn or none. -/
private theorem run_canonical_of_skip (hs : s.Poised) {ts : List Token}
    (hmode : s.mode.ComesFrom ts) (h : s.turn = .skip s') (hfailure : s.run.failure = none)
    (p q : Position) :
    (before p (Token.canonical s.run.tokens) (s.mode.beginningAt q)).run =
      (before p (Token.canonical s.run.tokens) (s'.mode.beginningAt q)).run := by
  have hs' : s'.Poised := hs.skip h
  obtain ⟨hm, -, hnext⟩ | ⟨name, hm, rfl, hend⟩ | ⟨tag, gap, w, hm, -, -, -, rfl⟩ | ⟨-, -, hm, -⟩ :=
    turn_skip_cases h
  · -- markup comes, and the new text begins with the same
    obtain ⟨hmode, hlead⟩ : s'.mode.beginningAt q = s'.mode ∧ s'.mode.lead = [] := by
      obtain rfl | rfl | rfl := hnext <;> exact ⟨rfl, rfl⟩
    rw [hm, hmode, before_eq hlead]
    exact run_of_skip (turnText_canonical hm h hfailure p)
  · -- raw text is over, and so it is in the new text
    rw [run_of_skip h] at hfailure ⊢
    obtain ⟨hnil, -, htag⟩ := canonical_resumes hs' hfailure
    rw [hm]
    refine run_of_skip (turnRawText_of_end (hend.imp hnil fun hstarts => ?_))
    exact (htag name (hmode.mem_rawTextElements name hm) hstarts).1
  · rw [hm]
    rfl
  · -- the beginning of a tag is the same in the new text
    obtain ⟨s₁, lead, t, s'', hturn, hm₁, -, -, -, hcanonical, hcut⟩ :=
      exists_token_of_tagOpen hs hm hfailure
    obtain rfl : s₁ = s' := Turn.skip.inj (hturn.symm.trans h)
    obtain ⟨closing, c, cs, hc, rfl, htext⟩ := hcut.of_tagName
    rw [htext, List.append_assoc, List.cons_append] at hcanonical
    generalize cs ++ Token.canonical s''.run.tokens = later at hcanonical
    generalize hlead : (if closing then ['<', '/'] else ['<']) = lead at *
    have hskip : turn ⟨p, lead ++ c :: later, .tagOpen⟩ = .skip ⟨p, c :: later, .tagName lead⟩ := by
      rw [← hlead]
      exact turnTagOpen_eq hc rfl
    rw [hm, hm₁, hcanonical]
    refine (run_of_skip hskip).trans ?_
    simp only [before, ScanMode.beginningAt, ScanMode.lead, List.drop_left]

/-- A run over the new text yields the tokens of the run over the source. -/
private theorem run_canonical (hs : s.Poised) (ts : List Token) (hmode : s.mode.ComesFrom ts)
    (hfailure : s.run.failure = none) (p q : Position) :
    let r := (before p (Token.canonical s.run.tokens) (s.mode.beginningAt q)).run
    r.failure = none ∧ r.tokens.map Token.shape = s.run.tokens.map Token.shape := by
  fun_induction run s generalizing ts p q with
  | case1 s t s' hturn later =>
    rename_i ih
    have hs' : s'.Poised := hs.token hturn
    -- the turn cuts a token off, and the same cut can be made in the new text
    obtain ⟨gap, after, hrest, hcut⟩ := turn_makesCut hs hturn
    obtain ⟨q', hcut'⟩ :=
      hcut.rewrite hmode.mem_rawTextElements (canonical_resumes hs' hfailure) p q
    have hrun := run_of_token hcut'.turn_eq
    rw [← mark_eq hs hturn hfailure] at hrun
    obtain ⟨hnone, hshape⟩ := ih hs' _ (hcut.comesFrom hmode rfl rfl) hfailure _ q'
    rw [before_eq hcut'.lead_next] at hnone hshape
    simp only [Token.canonical]
    rw [hrun]
    refine ⟨hnone, ?_⟩
    simp only [List.map_cons, Token.shape, String.ofList_toList]
    rw [hshape]
  | case2 s s' hturn ih =>
    have hskip := run_canonical_of_skip hs hmode hturn (by rwa [run_of_skip hturn]) p q
    rw [run_of_skip hturn] at hskip
    rw [hskip]
    exact ih (hs.skip hturn) ts (comesFrom_of_skip hturn hmode) hfailure p q
  | case3 s e hturn => cases hfailure
  | case4 s hturn =>
    rw [mode_of_finished hs hturn]
    have hrun : run ⟨p, Token.canonical [], .text⟩ = ⟨[], none⟩ := run_of_finished rfl
    show (run ⟨p, Token.canonical [], .text⟩).failure = none ∧
      (run ⟨p, Token.canonical [], .text⟩).tokens.map _ = _
    rw [hrun]
    exact ⟨rfl, rfl⟩

end Scanner

/-- The canonical text of the tokens of a source has these tokens again, with the same kinds and the
same texts, and is read without failure if the source is. -/
theorem tokenize_canonical {s : String} (h : (tokenize s).failure = none) :
    let again := tokenize (String.ofList (Token.canonical (tokenize s).tokens))
    again.failure = none ∧ again.tokens.map Token.shape = (tokenize s).tokens.map Token.shape := by
  have hrun := Scanner.run_canonical (s := .ofSource s.toList) trivial [] trivial h .start .start
  simp only [tokenize, String.toList_ofList]
  exact hrun

/-- Blanks, a slash and an equals sign without a value are gone, and everything else is as it was:
the value up to the blank, the text with a `<` in it, and the end tag that does not end the
script. -/
theorem tokenize_canonical_script :
    let source := "<A b = c/ d='e f'/ g=>x < y<Script>1 </b> </SCRIPT\t><?p>"
    (tokenize source).failure = none ∧
      Token.canonical (tokenize source).tokens =
        "<A b=c/ d='e f' g >x < y<Script >1 </b> </SCRIPT ><?p>".toList ∧
      let again := tokenize (String.ofList (Token.canonical (tokenize source).tokens))
      again.failure = none ∧
      again.tokens.map Token.shape = (tokenize source).tokens.map Token.shape := by
  intro source
  have hsource : (tokenize source).failure = none := by decide +kernel
  exact ⟨hsource, by decide +kernel, tokenize_canonical hsource⟩

end HtmlLint
