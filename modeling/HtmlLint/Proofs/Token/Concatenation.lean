import HtmlLint.Proofs.Token.Cut

/-!
# Sources one after the other

A source that ends with a complete tag, comment or doctype may be followed by any other source: the
tokens of the two together are those of the first and then those of the second, with their places
shifted by what stands before them (`tokenize_append`).  Only the `>` of a start tag such as
`<script>` is no such end, because what follows it is not read as a source of its own.

There are two sides to this.  The scanner does not know where in a source it is
(`Scanner.run_shiftedBy`).  And as long as there is a `>` ahead of it, it does not see what has been
added at the end (`Scanner.Cut.append`).
-/

namespace HtmlLint

/-! ## Shifted places -/

/-- The place of a point once `before` is put in front of the source: bytes and line breaks are
added, and a point of the first line continues the last line of `before`. -/
def Position.shiftedBy (before : List Char) (p : Position) : Position where
  offset := p.offset + byteLength before
  line := p.line + before.count '\n'
  column := if p.line = 1 then p.column + (before.reverse.takeWhile (· != '\n')).length
    else p.column

/-- The slice that begins at the shifted point. -/
def Location.shiftedBy (before : List Char) (l : Location) : Location :=
  { toPosition := l.toPosition.shiftedBy before, size := l.size }

/-- The token at its shifted place. -/
def Token.shiftedBy (before : List Char) (t : Token) : Token :=
  { t with location := t.location.shiftedBy before }

/-- The error at its shifted place. -/
def ScanError.shiftedBy (before : List Char) (e : ScanError) : ScanError :=
  { e with location := e.location.shiftedBy before }

/-- Tokens and failure at their shifted places. -/
def Scan.shiftedBy (before : List Char) (scan : Scan) : Scan :=
  ⟨scan.tokens.map (·.shiftedBy before), scan.failure.map (·.shiftedBy before)⟩

namespace Position

variable {p : Position} (before : List Char)

/-- Going on by one character commutes with a shift. -/
private theorem next_shiftedBy (h : p.line ≠ 0) (c : Char) :
    (p.next c).shiftedBy before = (p.shiftedBy before).next c := by
  by_cases hc : c = '\n'
  · -- the column starts again, on a line that is not the first
    simp only [next, if_pos hc, shiftedBy]
    rw [if_neg (by omega)]
    congr 1 <;> omega
  · simp only [next, if_neg hc, shiftedBy]
    split <;> congr 1 <;> omega

/-- Going on never leads to an earlier line. -/
private theorem line_le_advance (p : Position) (cs : List Char) : p.line ≤ (p.advance cs).line := by
  induction cs generalizing p with
  | nil => exact Nat.le_refl _
  | cons c cs ih =>
    refine Nat.le_trans ?_ (ih (p.next c))
    unfold next
    split
    · exact Nat.le_succ _
    · exact Nat.le_refl _

/-- Going on by a text commutes with a shift. -/
private theorem advance_shiftedBy (h : p.line ≠ 0) (cs : List Char) :
    (p.advance cs).shiftedBy before = (p.shiftedBy before).advance cs := by
  induction cs generalizing p with
  | nil => rfl
  | cons c cs ih =>
    have hnext : (p.next c).line ≠ 0 := by
      have hle := line_le_advance p [c]
      simp only [advance_cons, advance_nil] at hle
      omega
    rw [advance_cons, ih hnext, next_shiftedBy before h, advance_cons]

/-- The start of a source is shifted to the end of what stands before it. -/
private theorem start_shiftedBy : start.shiftedBy before = start.advance before := by
  rw [advance_start]
  simp only [shiftedBy, start, if_true]
  congr 1
  omega

end Position

/-! ## Shifted scanners -/

/-- The tag with its shifted beginning. -/
def TagInProgress.shiftedBy (before : List Char) (tag : TagInProgress) : TagInProgress :=
  { tag with start := tag.start.shiftedBy before }

/-- The same is expected, about the shifted tag if there is one. -/
def ScanMode.shiftedBy (before : List Char) : ScanMode → ScanMode
  | attributeName tag => attributeName (tag.shiftedBy before)
  | attributeValue tag => attributeValue (tag.shiftedBy before)
  | mode => mode

/-- The scanner at the shifted point. -/
def Scanner.shiftedBy (before : List Char) (s : Scanner) : Scanner :=
  ⟨s.position.shiftedBy before, s.rest, s.mode.shiftedBy before⟩

/-- The turn with all its places shifted. -/
def Turn.shiftedBy (before : List Char) : Turn → Turn
  | token t next => token (t.shiftedBy before) (next.shiftedBy before)
  | skip next => skip (next.shiftedBy before)
  | fault e => fault (e.shiftedBy before)
  | finished => finished

namespace Scanner

variable {s : Scanner} {tag : TagInProgress} (before : List Char)

/-- Reading commutes with a shift. -/
private theorem read_shiftedBy (h : s.position.line ≠ 0) (taken rest : List Char)
    (mode : ScanMode) :
    (s.shiftedBy before).read taken rest (mode.shiftedBy before) =
      (s.read taken rest mode).shiftedBy before := by
  simp only [read, shiftedBy, Position.advance_shiftedBy before h]

/-- Yielding a token commutes with a shift: the token is shifted, too. -/
private theorem emit_shiftedBy (h : s.position.line ≠ 0) (kind : TokenKind) (taken rest : List Char)
    (mode : ScanMode) :
    (s.shiftedBy before).emit kind taken rest (mode.shiftedBy before) =
      (s.emit kind taken rest mode).shiftedBy before := by
  simp only [emit, read_shiftedBy before h]
  rfl

/-- Skipping blanks commutes with a shift. -/
private theorem skipBlanks_shiftedBy (h : s.position.line ≠ 0) :
    (s.shiftedBy before).skipBlanks = s.skipBlanks.shiftedBy before :=
  read_shiftedBy before h _ _ _

/-- The end of the text stays where it is while the text is read. -/
private theorem Reads.advance_ahead {s' : Scanner} {taken : List Char} (hr : s.Reads taken s') :
    s.position.advance s.ahead = s'.position.advance s'.ahead := by
  rw [hr.1, Position.advance_append, hr.2]

/-- Skipping blanks does not lead to a line before the first. -/
private theorem skipBlanks_line_ne_zero (h : s.position.line ≠ 0) :
    s.skipBlanks.position.line ≠ 0 := by
  have hle : s.position.line ≤ s.skipBlanks.position.line := s.position.line_le_advance _
  omega

/-- Reading on never leads back to before the first line. -/
private theorem Reads.line_ne_zero {s' : Scanner} {taken : List Char} (hr : s.Reads taken s')
    (h : s.position.line ≠ 0) :
    s'.position.line ≠ 0 := by
  have hle := s.position.line_le_advance taken
  rw [← hr.2] at hle
  omega

/-- A turn in text commutes with a shift. -/
private theorem turnText_shiftedBy (h : s.position.line ≠ 0) :
    (s.shiftedBy before).turnText = s.turnText.shiftedBy before := by
  have hrest : (s.shiftedBy before).rest = s.rest := rfl
  simp only [turnText, hrest]
  repeat' split
  · rfl
  · rfl
  · rfl
  · rfl
  · rfl
  · exact emit_shiftedBy before h _ _ _ .text

/-- A turn in the name of a tag commutes with a shift. -/
private theorem turnTagName_shiftedBy (h : s.position.line ≠ 0) (lead : List Char) :
    (s.shiftedBy before).turnTagName lead = (s.turnTagName lead).shiftedBy before := by
  have hrest : (s.shiftedBy before).rest = s.rest := rfl
  simp only [turnTagName, hrest]
  exact emit_shiftedBy before h _ _ _ (.attributeName ⟨_, _, s.position⟩)

/-- Reading an attribute commutes with a shift. -/
private theorem readAttribute_shiftedBy (h : s.position.line ≠ 0) :
    (s.shiftedBy before).readAttribute (tag.shiftedBy before) =
      (s.readAttribute tag).shiftedBy before := by
  have hrest : (s.shiftedBy before).rest = s.rest := rfl
  simp only [readAttribute, hrest]
  split
  · rename_i value _
    simp only [Turn.shiftedBy, ← read_shiftedBy before h]
    congr 2
    split <;> rfl
  · simp only [Turn.shiftedBy, ← read_shiftedBy before h]
    rfl

/-- A turn before an attribute commutes with a shift. -/
private theorem turnAttributeName_shiftedBy (h : s.position.line ≠ 0) (tag : TagInProgress) :
    (s.shiftedBy before).turnAttributeName (tag.shiftedBy before) =
      (s.turnAttributeName tag).shiftedBy before := by
  have hline : s.skipBlanks.position.line ≠ 0 := skipBlanks_line_ne_zero h
  have hrest : (s.skipBlanks.shiftedBy before).rest = s.skipBlanks.rest := rfl
  -- what comes after a tag does not depend on where the tag began
  have hafter : afterTag (tag.shiftedBy before) = (afterTag tag).shiftedBy before := by
    show afterTag tag = (afterTag tag).shiftedBy before
    obtain htext | ⟨name, hraw⟩ := afterTag_cases tag
    · rw [htext]
      rfl
    · rw [hraw]
      rfl
  simp only [turnAttributeName, skipBlanks_shiftedBy before h, hrest]
  split
  · rfl
  · rw [hafter]
    exact emit_shiftedBy before hline _ _ _ _
  · exact emit_shiftedBy before hline _ _ _ .text
  · exact congrArg Turn.skip (read_shiftedBy before hline _ _ (.attributeName tag))
  · split
    · rfl
    · exact readAttribute_shiftedBy before hline

/-- A turn before a value commutes with a shift. -/
private theorem turnAttributeValue_shiftedBy (h : s.position.line ≠ 0) (tag : TagInProgress) :
    (s.shiftedBy before).turnAttributeValue (tag.shiftedBy before) =
      (s.turnAttributeValue tag).shiftedBy before := by
  have hline : s.skipBlanks.position.line ≠ 0 := skipBlanks_line_ne_zero h
  have hrest : (s.skipBlanks.shiftedBy before).rest = s.skipBlanks.rest := rfl
  simp only [turnAttributeValue, skipBlanks_shiftedBy before h, hrest]
  split
  · rfl
  · split
    · split
      · rfl
      · exact emit_shiftedBy before hline _ _ _ (.attributeName tag)
    · exact emit_shiftedBy before hline _ _ _ (.attributeName tag)

/-- Reading up to a `>` commutes with a shift. -/
private theorem upToAngle_shiftedBy (h : s.position.line ≠ 0) (kind : TokenKind)
    (fault : ScanFault) :
    (s.shiftedBy before).upToAngle kind fault = (s.upToAngle kind fault).shiftedBy before := by
  have hrest : (s.shiftedBy before).rest = s.rest := rfl
  simp only [upToAngle, hrest]
  split
  · rfl
  · exact emit_shiftedBy before h _ _ _ .text

/-- A turn in a comment commutes with a shift. -/
private theorem turnComment_shiftedBy (h : s.position.line ≠ 0) :
    (s.shiftedBy before).turnComment = s.turnComment.shiftedBy before := by
  have hrest : (s.shiftedBy before).rest = s.rest := rfl
  simp only [turnComment, hrest]
  split
  · split
    · rfl
    · exact emit_shiftedBy before h _ _ _ .text
  · exact upToAngle_shiftedBy before h _ _

/-- A turn in raw text commutes with a shift. -/
private theorem turnRawText_shiftedBy (h : s.position.line ≠ 0) (name : String) :
    (s.shiftedBy before).turnRawText name = (s.turnRawText name).shiftedBy before := by
  have hrest : (s.shiftedBy before).rest = s.rest := rfl
  simp only [turnRawText, hrest]
  split
  · rfl
  · exact emit_shiftedBy before h _ _ _ .text

/-- A turn at the shifted point is the shifted turn. -/
private theorem turn_shiftedBy (h : s.position.line ≠ 0) :
    (s.shiftedBy before).turn = s.turn.shiftedBy before := by
  cases hm : s.mode with
  | text => simpa [turn, hm, shiftedBy, ScanMode.shiftedBy] using turnText_shiftedBy before h
  | tagOpen => simp [turn, hm, turnTagOpen, shiftedBy, ScanMode.shiftedBy, Turn.shiftedBy]
  | tagName lead =>
    simpa [turn, hm, shiftedBy, ScanMode.shiftedBy] using turnTagName_shiftedBy before h lead
  | attributeName tag =>
    simpa [turn, hm, shiftedBy, ScanMode.shiftedBy] using turnAttributeName_shiftedBy before h tag
  | attributeValue tag =>
    simpa [turn, hm, shiftedBy, ScanMode.shiftedBy] using turnAttributeValue_shiftedBy before h tag
  | comment => simpa [turn, hm, shiftedBy, ScanMode.shiftedBy] using turnComment_shiftedBy before h
  | doctype =>
    simpa [turn, hm, shiftedBy, ScanMode.shiftedBy] using upToAngle_shiftedBy before h _ _
  | rawText name =>
    simpa [turn, hm, shiftedBy, ScanMode.shiftedBy] using turnRawText_shiftedBy before h name
  | failed => simp [turn, hm, shiftedBy, ScanMode.shiftedBy, Turn.shiftedBy]

/-- So it is with all turns. -/
theorem run_shiftedBy (h : s.position.line ≠ 0) :
    (s.shiftedBy before).run = s.run.shiftedBy before := by
  -- shifting a position needs its line not to be zero, which every turn keeps
  fun_induction run s with
  | case1 s t s' hturn later =>
    rename_i ih
    have hshift := turn_shiftedBy before h
    rw [hturn] at hshift
    obtain ⟨taken, hreads⟩ := exists_reads (next?_of_token hturn)
    rw [run_of_token hshift, ih (hreads.line_ne_zero h)]
    rfl
  | case2 s s' hturn ih =>
    have hshift := turn_shiftedBy before h
    rw [hturn] at hshift
    obtain ⟨taken, hreads⟩ := exists_reads (next?_of_skip hturn)
    rw [run_of_skip hshift, ih (hreads.line_ne_zero h)]
  | case3 s e hturn =>
    have hshift := turn_shiftedBy before h
    rw [hturn] at hshift
    rw [run_of_fault hshift]
    rfl
  | case4 s hturn =>
    have hshift := turn_shiftedBy before h
    rw [hturn] at hshift
    rw [run_of_finished hshift]
    rfl

end Scanner

/-! ## Where sources end -/

/-- Tokens of this kind end with a `>` and lead out of markup. -/
def TokenKind.endsMarkup : TokenKind → Bool
  | tagClose | comment | doctype => true
  | tagOpen | attrName | attrValue | text => false

namespace Token

/-- The last tag that begins in the tokens. -/
def lastTag? (ts : List Token) : Option Token :=
  ts.reverse.find? (·.kind == .tagOpen)

/-- The tag that begins here is a start tag of an element whose content is raw text. -/
def opensRawText (t : Token) : Bool :=
  !t.isEndTag && rawTextElements.contains (Text.foldCase t.tagName)

/-- The last token is the `>` of a start tag of an element whose content is raw text. -/
def leadIntoRawText (ts : List Token) : Bool :=
  (ts.getLast?.any fun t => t.kind == .tagClose && t.text == ">") && (lastTag? ts).any opensRawText

/-- After the tokens another source may begin: they end with a complete tag, comment or doctype, and
what follows is not raw text. -/
def endSource (ts : List Token) : Bool :=
  (ts.getLast?.any fun t => t.kind.endsMarkup) && !leadIntoRawText ts

/-- The token that makes an end is the last one. -/
private theorem exists_of_endSource {ts later : List Token} (hne : later ≠ [])
    (h : endSource (ts ++ later) = true) :
    ∃ t ∈ later, t.kind.endsMarkup = true := by
  cases hlast : later.getLast? with
  | none => exact absurd (List.getLast?_eq_none_iff.mp hlast) hne
  | some t =>
    simp only [endSource, List.getLast?_append, hlast, Option.some_or, Option.any_some,
      Bool.and_eq_true] at h
    exact ⟨t, List.mem_of_getLast? hlast, h.1⟩

/-- Another token does not change which tag was begun last. -/
theorem lastTag?_concat_of_ne {t : Token} (h : t.kind ≠ .tagOpen) (ts : List Token) :
    lastTag? (ts ++ [t]) = lastTag? ts := by
  simp [lastTag?, h]

/-- A tag that begins is the last one. -/
private theorem lastTag?_concat {t : Token} (h : t.kind = .tagOpen) (ts : List Token) :
    lastTag? (ts ++ [t]) = some t := by
  simp [lastTag?, h]

/-- The first characters of a tag tell its name and whether it is an end tag. -/
theorem of_tagOpen {t : Token} {closing : Bool} {c : Char} {cs : List Char} (hk : t.kind = .tagOpen)
    (hc : c.isAlpha = true)
    (ht : t.text.toList = (if closing then ['<', '/'] else ['<']) ++ c :: cs) :
    t.isEndTag = closing ∧ t.tagName = String.ofList (c :: cs) := by
  have hslash : c ≠ '/' := by rintro rfl; cases hc
  cases closing with
  | true => simp [isEndTag, tagName, hk, ht, Text.startsWith]
  | false =>
    have hopen : Text.startsWith ('<' :: c :: cs) "</" = false := by
      simp [Text.startsWith, List.isPrefixOf, hslash.symm]
    have hlist : t.text.toList = '<' :: c :: cs := ht
    refine ⟨by simp [isEndTag, hk, hlist, hopen], ?_⟩
    unfold tagName
    rw [hlist]
    split <;> simp_all

end Token

/-- What the scanner expects comes from the tokens before: the tag that it is in is the last one
that began, and raw text is expected only where they lead into it. -/
def ScanMode.ComesFrom (ts : List Token) : ScanMode → Prop
  | attributeName tag | attributeValue tag =>
    ∃ t, Token.lastTag? ts = some t ∧ t.isEndTag = tag.closing ∧ t.tagName = tag.name
  | rawText name => name ∈ rawTextElements ∧ Token.leadIntoRawText ts = true
  | text | tagOpen | tagName _ | comment | doctype | failed => True

/-- Raw text is expected only in the elements that have raw text. -/
theorem ScanMode.ComesFrom.mem_rawTextElements {ts : List Token} {mode : ScanMode}
    (h : mode.ComesFrom ts) (name : String) (hm : mode = .rawText name) :
    name ∈ rawTextElements := by
  rw [hm] at h
  exact h.1

namespace Scanner

variable {s s' : Scanner} {p : Position} {mode next : ScanMode} {gap text after w : List Char}
  {kind : TokenKind}

/-- With every token, what is expected next comes from the tokens. -/
theorem Cut.comesFrom (h : Cut p mode gap kind text after w next) {ts : List Token}
    (hmode : mode.ComesFrom ts) {t : Token} (hk : t.kind = kind) (ht : t.text.toList = text) :
    next.ComesFrom (ts ++ [t]) := by
  have hsame : t.kind ≠ .tagOpen → Token.lastTag? (ts ++ [t]) = Token.lastTag? ts :=
    fun hne => Token.lastTag?_concat_of_ne hne ts
  cases h with
  | text | rawText | selfClose | comment | bogus | doctype => trivial
  | tagOpen closing hc hname hstop =>
    exact ⟨t, Token.lastTag?_concat hk ts, Token.of_tagOpen hk hc ht⟩
  | attrName | quoted | bare =>
    obtain ⟨opening, hlast, htag⟩ := hmode
    exact ⟨opening, by rw [hsame (by simp [hk]), hlast], htag⟩
  | attrKey =>
    obtain ⟨opening, hlast, htag⟩ := hmode
    rw [← hsame (by simp [hk])] at hlast
    split <;> exact ⟨opening, hlast, htag⟩
  | @tagClose tag =>
    obtain ⟨opening, hlast, hclosing, hname⟩ := hmode
    rw [← hsame (by simp [hk])] at hlast
    unfold afterTag
    split
    · -- raw text comes only if the opening token, which is the last of its kind, calls for it
      rename_i hraw
      have htext : t.text = ">" := String.toList_inj.mp ht
      rw [← hclosing, ← hname] at hraw
      refine ⟨?_, ?_⟩
      · rw [← hname]
        simp only [Bool.and_eq_true, List.contains_iff_mem] at hraw
        exact hraw.2
      · simp only [Token.leadIntoRawText, hlast, List.getLast?_concat, Option.any_some, hk, htext,
          Token.opensRawText, hraw]
        rfl
    · trivial

/-- A turn that yields nothing keeps what the tokens say about the mode. -/
theorem comesFrom_of_skip (h : s.turn = .skip s') {ts : List Token} (hmode : s.mode.ComesFrom ts) :
    s'.mode.ComesFrom ts := by
  obtain ⟨-, -, rfl | rfl | rfl⟩ | ⟨name, -, rfl, -⟩ | ⟨tag, gap, w, hm, -, -, -, rfl⟩
      | ⟨lead, w, -, -, rfl⟩ :=
    turn_skip_cases h
  · trivial
  · trivial
  · trivial
  · trivial
  · rw [hm] at hmode
    exact hmode
  · trivial

/-! ## What has been added at the end -/

/-- A search that stops before what holds a `>` does not see what is added. -/
private theorem breakAt_append_of_stop {q : List Char → Bool}
    (hstop : Text.breakAt q (text ++ w) = (text, w)) (hw : w ≠ [])
    (hsame : ∀ (a x y : List Char), q (a ++ w ++ x) = q (a ++ w ++ y)) (later : List Char) :
    Text.breakAt q (text ++ (w ++ later)) = (text, w ++ later) := by
  refine Text.breakAt_swap hstop (.inr ?_) fun c v hno => ?_
  · have hq := (Text.stop_of_breakAt hstop).resolve_left hw
    have heq := hsame [] later []
    simp only [List.nil_append, List.append_nil] at heq
    rw [heq]
    exact hq
  · have heq := hsame (c :: v) later []
    rw [List.append_nil, List.append_assoc] at heq
    rw [heq]
    exact hno

/-- An end tag that goes on up to a `>` is known to be one. -/
private theorem length_le_of_startsEndTagOf {name : String} (hname : name ∈ rawTextElements)
    (h : startsEndTagOf name w = true) (hw : '>' ∈ w) : name.toList.length + 3 ≤ w.length := by
  obtain ⟨spelling, rest, rfl, hspelling, -⟩ := exists_of_startsEndTagOf h
  have hlength : spelling.length = name.toList.length :=
    by simpa using congrArg List.length hspelling
  -- the `>` is not part of the name
  have hrest : rest ≠ [] := by
    rintro rfl
    have hmem : '>' ∈ spelling := by simpa using hw
    have hlower : '>' ∈ name.toList.map Char.toLower := by
      rw [← hspelling]
      exact List.mem_map_of_mem (f := Char.toLower) hmem
    have hall : ∀ name ∈ rawTextElements, '>' ∉ name.toList.map Char.toLower := by decide
    exact hall name hname hlower
  have hpos := List.length_pos_iff.mpr hrest
  simp only [List.cons_append, List.length_cons, List.length_append, hlength]
  omega

/-- A cut is made whatever is added at the end, if the token ends with a `>` or there is one
ahead. -/
theorem Cut.append (h : Cut p mode gap kind text after w next)
    (hraw : ∀ name, mode = .rawText name → name ∈ rawTextElements)
    (hahead : kind.endsMarkup = true ∨ '>' ∈ w) (later : List Char) :
    Cut p mode gap kind text after (w ++ later) next := by
  have hangle : kind.endsMarkup = false → '>' ∈ w :=
    fun hkind => hahead.resolve_left (by simp [hkind])
  have hne : kind.endsMarkup = false → w ≠ [] := fun hkind => List.ne_nil_of_mem (hangle hkind)
  -- every cut is decided before the next `>`, so the text past it does not matter
  cases h with
  | text htext hstop =>
    refine .text htext (breakAt_append_of_stop hstop (hne rfl) (fun a x y => ?_) later)
    exact startsMarkup_append_congr (List.mem_append_right a (hangle rfl)) x y
  | @rawText name _ _ htext hstop =>
    have hend := (Text.stop_of_breakAt hstop).resolve_left (hne rfl)
    have hlength := length_le_of_startsEndTagOf (hraw name rfl) hend (hangle rfl)
    refine .rawText htext (breakAt_append_of_stop hstop (hne rfl) (fun a x y => ?_) later)
    exact startsEndTagOf_append_congr (by rw [List.length_append]; omega) x y
  | tagOpen closing hc hname hstop => exact .tagOpen closing hc hname (hstop.append (hne rfl) later)
  | attrName hgap hname hchars hstop hnext =>
    refine .attrName hgap hname hchars (hstop.append (hne rfl) later) ?_
    rw [dropWhile_append_of_mem (hangle rfl) (by decide)]
    exact hnext.append (dropWhile_ne_nil (hangle rfl) (by decide)) later
  | attrKey hgap hname hchars hgap' =>
    have hdrop := dropWhile_append_of_mem (p := Text.isBlank) (hangle rfl) (by decide) later
    have hsame := Text.startsWith_append_congr_of_length ">" (a := w.dropWhile Text.isBlank)
      (List.length_pos_iff.mpr (dropWhile_ne_nil (hangle rfl) (by decide))) later []
    rw [List.append_nil, ← hdrop] at hsame
    rw [← hsame]
    exact .attrKey hgap hname hchars hgap'
  | tagClose hgap => exact .tagClose hgap
  | selfClose hgap => exact .selfClose hgap
  | quoted hgap hq hinner => exact .quoted hgap hq hinner
  | bare hgap hc hvalue hstop => exact .bare hgap hc hvalue (hstop.append (hne rfl) later)
  | @comment body _ hstop =>
    refine .comment ?_
    rw [← List.append_assoc "-->".toList]
    refine breakAt_append_of_stop hstop (by simp) (fun a x y => ?_) later
    exact Text.startsWith_append_congr_of_length "-->" (by simp; omega) x y
  | @bogus body _ hbody hno =>
    refine .bogus hbody ?_
    rw [startsWith_comment_congr body (w ++ later) w]
    exact hno
  | doctype hbody => exact .doctype hbody

/-- The scanner with something added to what is left. -/
def followedBy (s : Scanner) (later : List Char) : Scanner :=
  { s with rest := s.rest ++ later }

/-- A text that is added comes after all that was ahead. -/
private theorem ahead_followedBy (s : Scanner) (later : List Char) :
    (s.followedBy later).ahead = s.ahead ++ later := by
  simp only [ahead, followedBy, List.append_assoc]

/-- The token of a turn stays the same whatever is added, if it ends with a `>` or there is one
ahead. -/
private theorem turn_token_followedBy {t : Token} (hs : s.Poised)
    (hraw : ∀ name, s.mode = .rawText name → name ∈ rawTextElements) (h : s.turn = .token t s')
    (hahead : t.kind.endsMarkup = true ∨ '>' ∈ s'.rest) (later : List Char) :
    (s.followedBy later).turn = .token t (s'.followedBy later) := by
  obtain ⟨gap, after, hleft, hcut⟩ := turn_makesCut hs h
  have heq := hcut.turn_eq
  have hturn' := (hcut.append hraw hahead later).turn_eq
  -- both turns yield the token that the cut tells
  rw [← hleft, before_ahead, h, Turn.token.injEq] at heq
  have hfollowed : s.followedBy later =
      before s.position (gap ++ t.text.toList ++ after ++ (s'.rest ++ later)) s.mode := by
    rw [← before_ahead (s.followedBy later), ahead_followedBy, hleft]
    simp only [followedBy, List.append_assoc]
  rw [hfollowed, hturn', ← heq.1]
  congr 1
  rw [heq.2]
  rfl

/-- A turn without a token does not see what is added, if there is a `>` ahead. -/
private theorem turn_skip_followedBy (hs : s.Poised) (h : s.turn = .skip s')
    (hraw : ∀ name, s.mode = .rawText name → name ∈ rawTextElements) (hahead : '>' ∈ s.rest)
    (later : List Char) :
    (s.followedBy later).turn = .skip (s'.followedBy later) := by
  obtain ⟨hm, hturn, hnext⟩ | ⟨name, hm, rfl, hend⟩ | ⟨tag, gap, w, hm, hgap, hrest, hstop, rfl⟩ |
    ⟨lead, w, hm, -, -⟩ := turn_skip_cases h
  · -- markup is told from text before the next `>`
    have hsame := turnText_congr (x := []) hahead (by rwa [List.append_nil]) s.position s.mode later
    simp only [turn, followedBy, hm] at hsame ⊢
    rw [hsame]
    obtain rfl | rfl | rfl := hnext <;> rfl
  · -- the end tag goes on up to the `>`
    have hstarts := hend.resolve_left (List.ne_nil_of_mem hahead)
    have hlength := length_le_of_startsEndTagOf (hraw name hm) hstarts hahead
    have hsame := startsEndTagOf_append_congr hlength later []
    rw [List.append_nil, hstarts] at hsame
    simp only [turn, followedBy, hm]
    exact turnRawText_of_end (.inr hsame)
  · -- what follows the slash is there already
    have hw : '>' ∈ w := by
      rw [hrest, List.mem_append, List.mem_cons] at hahead
      obtain hblank | hslash | hw := hahead
      · exact absurd (hgap _ hblank) (by decide)
      · exact absurd hslash (by decide)
      · exact hw
    obtain ⟨c, w, rfl⟩ := List.exists_cons_of_ne_nil (List.ne_nil_of_mem hw)
    have hc : c ≠ '>' := by simpa using hstop c rfl
    have hskip :=
      skipBlanks_of_stops s.position (.attributeName tag) ('/' :: c :: (w ++ later)) hgap
      (.cons (by decide))
    have hfollowed : s.followedBy later =
        ⟨s.position, gap ++ '/' :: c :: (w ++ later), .attributeName tag⟩ := by
      simp only [followedBy, hrest, hm, List.append_assoc, List.cons_append]
    rw [hfollowed]
    simp [turn, turnAttributeName, hskip, hc, read, followedBy]
  · -- a letter comes after the beginning of the tag
    simp only [Poised, hm] at hs
    obtain ⟨closing, c, cs, hc, hrest⟩ := exists_of_startsTag hs
    simp only [turn, hm, turnTagOpen_eq hc hrest, Turn.skip.injEq] at h
    subst h
    have hfollowed : (s.followedBy later).rest =
        (if closing then ['<', '/'] else ['<']) ++ c :: (cs ++ later) := by
      simp only [followedBy, hrest, List.append_assoc, List.cons_append]
    have hmode : (s.followedBy later).mode = .tagOpen := hm
    simp only [turn, hmode, turnTagOpen_eq hc hfollowed]
    rfl

/-- A token that ends markup has a `>`. -/
private theorem Cut.angle_mem (h : Cut p mode gap kind text after w next)
    (hkind : kind.endsMarkup = true) : '>' ∈ text := by
  cases h with
  | text | rawText | tagOpen | attrName | attrKey | quoted | bare => cases hkind
  | tagClose | selfClose | comment | bogus | doctype => simp

/-- What leads out of markup leads to text. -/
private theorem Cut.next_cases (h : Cut p mode gap kind text after w next)
    (hkind : kind.endsMarkup = true) :
    next = .text ∨ ∃ name, next = .rawText name := by
  cases h with
  | text | rawText | tagOpen | attrName | attrKey | quoted | bare => cases hkind
  | @tagClose tag => exact afterTag_cases tag
  | selfClose | comment | bogus | doctype => exact .inl rfl

/-- A token that ends with a `>` is made of what is ahead, and so there is a `>` in it. -/
private theorem mem_ahead_of_endsMarkup (hs : s.Poised) {t : Token} (ht : t ∈ s.run.tokens)
    (hkind : t.kind.endsMarkup = true) :
    '>' ∈ s.ahead := by
  fun_induction run s with
  | case1 s u s' hturn later =>
    rename_i ih
    obtain ⟨gap, after, hrest, hcut⟩ := turn_makesCut hs hturn
    rw [hrest]
    cases List.mem_cons.mp ht with
    | inl ht =>
      subst ht
      simp [hcut.angle_mem hkind]
    | inr ht =>
      -- the `>` is in what the later tokens cover
      have hlater := ih (hs.token hturn) ht
      rw [ahead_eq hcut.lead_next] at hlater
      simp [hlater]
  | case2 s s' hturn ih =>
    obtain ⟨taken, hreads⟩ := exists_reads (next?_of_skip hturn)
    rw [hreads.1]
    exact List.mem_append_right _ (ih (hs.skip hturn) ht)
  | case3 s e hturn => cases ht
  | case4 s hturn => cases ht

/-- After the last token of a run nothing is left. -/
private theorem ahead_of_run_tokens (hs : s.Poised) (hfailure : s.run.failure = none)
    (h : s.run.tokens = []) : s.ahead = [] := by
  have htiles := run_tiles hs
  rw [h] at htiles
  exact (htiles hfailure).2

/-- Where a run ends as sources do, it goes on with what is added as if that were a source of its
own. -/
private theorem run_followedBy (hs : s.Poised) (ts : List Token) (hmode : s.mode.ComesFrom ts)
    (hfailure : s.run.failure = none) (hne : s.run.tokens ≠ [])
    (hend : Token.endSource (ts ++ s.run.tokens) = true) (later : List Char) :
    let added := run ⟨s.position.advance s.ahead, later, .text⟩
    (s.followedBy later).run = ⟨s.run.tokens ++ added.tokens, added.failure⟩ := by
  fun_induction run s generalizing ts with
  | case1 s t s' hturn rest =>
    rename_i ih
    have hs' : s'.Poised := hs.token hturn
    have hraw := hmode.mem_rawTextElements
    obtain ⟨gap, after, hrest, hcut⟩ := turn_makesCut hs hturn
    have hmode' := hcut.comesFrom hmode rfl rfl
    obtain ⟨taken, hreads⟩ := exists_reads (next?_of_token hturn)
    rw [hreads.advance_ahead]
    rw [← List.singleton_append, ← List.append_assoc] at hend
    by_cases hlast : s'.run.tokens = []
    · -- the token is the last one, and the added text begins right after it
      rw [hlast, List.append_nil] at hend
      have hkind : t.kind.endsMarkup = true := by
        obtain ⟨u, hu, hkind⟩ := Token.exists_of_endSource (by simp) hend
        rwa [List.mem_singleton.mp hu] at hkind
      have htext : s'.mode = .text := by
        refine (hcut.next_cases hkind).resolve_right fun hrawText => ?_
        obtain ⟨name, hm⟩ := hrawText
        rw [hm] at hmode'
        simp [Token.endSource, hmode'.2] at hend
      have hnil := ahead_of_run_tokens hs' hfailure hlast
      rw [ahead_eq hcut.lead_next] at hnil
      have hadded : s'.followedBy later = ⟨s'.position.advance s'.ahead, later, .text⟩ := by
        simp [followedBy, ahead_eq hcut.lead_next, hnil, htext]
      rw [run_of_token (turn_token_followedBy hs hraw hturn (.inl hkind) later), hadded, hlast]
      rfl
    · obtain ⟨u, hu, hkind⟩ := Token.exists_of_endSource hlast hend
      have hahead := mem_ahead_of_endsMarkup hs' hu hkind
      rw [ahead_eq hcut.lead_next] at hahead
      rw [run_of_token (turn_token_followedBy hs hraw hturn (.inr hahead) later),
        ih hs' _ hmode' hfailure hlast hend]
      rfl
  | case2 s s' hturn ih =>
    have hraw := hmode.mem_rawTextElements
    have hs' : s'.Poised := hs.skip hturn
    obtain ⟨taken, hreads⟩ := exists_reads (next?_of_skip hturn)
    obtain ⟨u, hu, hkind⟩ := Token.exists_of_endSource hne hend
    have hahead : '>' ∈ s.rest := by
      rw [← ahead_eq (lead_of_skip hturn), hreads.1]
      exact List.mem_append_right _ (mem_ahead_of_endsMarkup hs' hu hkind)
    rw [run_of_skip (turn_skip_followedBy hs hturn hraw hahead later), hreads.advance_ahead]
    exact ih hs' ts (comesFrom_of_skip hturn hmode) hfailure hne hend
  | case3 s e hturn => cases hfailure
  | case4 s hturn => exact absurd rfl hne

end Scanner

/-- If a source is empty or ends with a complete tag, comment or doctype after which no raw text is
expected, another source may follow it: the tokens of the two together are those of the first and
then those of the second, up to the second one's failure if it has one, with everything about the
second shifted by the first. -/
theorem tokenize_append {s : String}
    (h : s = "" ∨ (tokenize s).failure = none ∧ Token.endSource (tokenize s).tokens = true)
    (t : String) :
    tokenize (s ++ t) =
      ⟨(tokenize s).tokens ++ ((tokenize t).shiftedBy s.toList).tokens,
        ((tokenize t).shiftedBy s.toList).failure⟩ := by
  -- what follows is read as a source of its own, from the end of the first one on
  have hshift : Scanner.run ⟨Position.start.advance s.toList, t.toList, .text⟩ =
      (tokenize t).shiftedBy s.toList := by
    rw [← Position.start_shiftedBy]
    exact Scanner.run_shiftedBy (s := .ofSource t.toList) s.toList Nat.one_ne_zero
  obtain rfl | ⟨hfailure, hend⟩ := h
  · have hnone : tokenize "" = ⟨[], none⟩ := Scanner.run_of_finished rfl
    rw [hnone, ← hshift, String.empty_append]
    rfl
  · have hne : (tokenize s).tokens ≠ [] := by
      intro hnil
      rw [hnil] at hend
      cases hend
    have hrun :=
      Scanner.run_followedBy (s := .ofSource s.toList) trivial [] trivial hfailure hne hend t.toList
    rw [← hshift]
    show Scanner.run (.ofSource (s ++ t).toList) = _
    rw [String.toList_append]
    exact hrun

/-- The first source ends on its second line with the end of a start tag; the second one continues
that line and fails on its own second line. -/
theorem tokenize_append_lines :
    let s := "<p>\n<b c>"
    let t := "d\n<i =>"
    ((tokenize s).failure = none ∧ Token.endSource (tokenize s).tokens = true) ∧
      ((tokenize (s ++ t)).tokens.drop 6).map (·.location) = [⟨⟨9, 2, 6⟩, 2⟩, ⟨⟨11, 3, 1⟩, 2⟩] ∧
      (tokenize (s ++ t)).failure.map (·.location) = some ⟨⟨14, 3, 4⟩, 1⟩ ∧
      tokenize (s ++ t) =
        ⟨(tokenize s).tokens ++ ((tokenize t).shiftedBy s.toList).tokens,
          ((tokenize t).shiftedBy s.toList).failure⟩ := by
  intro s t
  have hs : (tokenize s).failure = none ∧ Token.endSource (tokenize s).tokens = true :=
    by decide +kernel
  exact ⟨hs, by decide +kernel, by decide +kernel, tokenize_append (.inr hs) t⟩

/-- What follows the `>` of a title is not read as a source. -/
example : (tokenize "<title>").failure = none ∧
    Token.endSource (tokenize "<title>").tokens = false ∧
    (tokenize ("<title>" ++ "<b>")).tokens.map Token.shape =
      [(.tagOpen, "<title"), (.tagClose, ">"), (.text, "<b>")] := by
  decide +kernel

end HtmlLint
