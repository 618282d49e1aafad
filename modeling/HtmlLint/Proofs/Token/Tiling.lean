import HtmlLint.Proofs.Token.Markup
import HtmlLint.Proofs.Token.Order

/-!
# Tokens tile the source

Nothing of a source gets lost in its tokens.  `Token.Tiles` says of a text and a list of tokens that
the tokens are non-empty slices of the text, one after the other, each at the place that its
location tells, and that between them there are only gaps inside tags.  Every run of the scanner
tiles what it reads (`Scanner.run_tiles`), whether or not it ends in a fault, and `tokenize_tiles`
says what this means for offsets, lines, columns and gaps.

That no token is empty needs to know what the scanner has seen before it expects something
(`Scanner.Poised`): a tag is expected where one begins, and a value where the tag does not end.
-/

namespace HtmlLint

/-! ## Lines and columns -/

/-- The point after a text: its bytes, its line breaks and the characters after the last of these
are counted. -/
theorem Position.advance_start (cs : List Char) :
    Position.start.advance cs =
      ⟨byteLength cs, 1 + cs.count '\n', 1 + (cs.reverse.takeWhile (· != '\n')).length⟩ := by
  -- the induction is from the end of the text, where the column changes
  suffices h : ∀ rs : List Char, Position.start.advance rs.reverse =
      ⟨byteLength rs.reverse, 1 + rs.reverse.count '\n', 1 + (rs.takeWhile (· != '\n')).length⟩ by
    have := h cs.reverse
    rwa [List.reverse_reverse] at this
  intro rs
  induction rs with
  | nil => rfl
  | cons c rs ih =>
    rw [List.reverse_cons, advance_append, ih, advance_cons, advance_nil, next, byteLength_append,
      List.count_append]
    by_cases hc : c = '\n'
    · subst hc
      simp
      omega
    · rw [if_neg hc, List.takeWhile_cons_of_pos (by simpa using hc)]
      simp [hc]
      omega

/-! ## What the scanner expects -/

namespace Scanner

variable {s s' : Scanner} {t : Token}

/-- What the scanner expects can come next: a tag only where one begins, its name only where there
is one, and a value only where the tag does not end first. -/
def Poised (s : Scanner) : Prop :=
  match s.mode with
  | .tagOpen => startsTag s.rest = true
  | .tagName lead => ∃ (closing : Bool) (c : Char) (cs : List Char), c.isAlpha = true ∧
      lead = (if closing then ['<', '/'] else ['<']) ∧ s.rest = c :: cs
  | .attributeValue _ => Text.startsWith (s.rest.dropWhile Text.isBlank) ">" = false
  | .failed => False
  | _ => True

/-- A token may be yielded in front of text, of raw text and of an attribute. -/
private theorem emit_poised {kind : TokenKind} {taken rest : List Char} {mode : ScanMode}
    (hmode : mode = .text ∨ (∃ name, mode = .rawText name) ∨ ∃ tag, mode = .attributeName tag)
    (h : (s.emit kind taken rest mode).next? = some s') : s'.Poised := by
  rw [next?_emit, Option.some.injEq] at h
  subst h
  obtain rfl | ⟨name, rfl⟩ | ⟨tag, rfl⟩ := hmode <;> trivial

/-- After a turn in text it is known what comes next. -/
private theorem turnText_poised (h : s.turnText.next? = some s') : s'.Poised := by
  simp only [turnText] at h
  split at h
  · cases h
  split at h
  · cases h; trivial
  split at h
  · cases h; trivial
  split at h
  · cases h; trivial
  split at h
  · -- a tag is expected only where one begins
    rename_i htag
    cases h
    exact htag
  · exact emit_poised (.inl rfl) h

/-- So it is after the name of an attribute. -/
private theorem readAttribute_poised {tag : TagInProgress}
    (h : (s.readAttribute tag).next? = some s') :
    s'.Poised := by
  simp only [readAttribute] at h
  split at h
  · rename_i value _
    cases h
    -- a value is expected only if the tag does not end after the equals sign
    cases hvalue : Text.startsWith (value.dropWhile Text.isBlank) ">" with
    | true => simp [Poised, read]
    | false => simpa [Poised, read] using hvalue
  · cases h; trivial

/-- So it is after a turn before an attribute. -/
private theorem turnAttributeName_poised {tag : TagInProgress}
    (h : (s.turnAttributeName tag).next? = some s') :
    s'.Poised := by
  simp only [turnAttributeName] at h
  split at h
  · cases h
  · -- after the `>` of a tag there is text, of one kind or the other
    apply emit_poised _ h
    unfold afterTag
    split
    · exact .inr (.inl ⟨_, rfl⟩)
    · exact .inl rfl
  · exact emit_poised (.inl rfl) h
  · cases h; trivial
  · split at h
    · cases h
    · exact readAttribute_poised h

/-- So it is after a turn before a value. -/
private theorem turnAttributeValue_poised {tag : TagInProgress}
    (h : (s.turnAttributeValue tag).next? = some s') :
    s'.Poised := by
  simp only [turnAttributeValue] at h
  split at h
  · cases h
  · split at h
    · split at h
      · cases h
      · exact emit_poised (.inr (.inr ⟨tag, rfl⟩)) h
    · exact emit_poised (.inr (.inr ⟨tag, rfl⟩)) h

/-- So it is after a `>`. -/
private theorem upToAngle_poised {kind : TokenKind} {fault : ScanFault}
    (h : (s.upToAngle kind fault).next? = some s') : s'.Poised := by
  simp only [upToAngle] at h
  split at h
  · cases h
  · exact emit_poised (.inl rfl) h

/-- After the beginning of a tag comes its name. -/
private theorem turnTagOpen_poised (hs : startsTag s.rest = true)
    (h : s.turnTagOpen.next? = some s') : s'.Poised := by
  obtain ⟨closing, c, cs, hc, hrest⟩ := exists_of_startsTag hs
  rw [turnTagOpen_eq hc hrest] at h
  cases h
  exact ⟨closing, c, cs, hc, rfl, rfl⟩

/-- After every turn that goes on, what the scanner expects can come next. -/
theorem turn_poised (hs : s.Poised) (h : s.turn.next? = some s') : s'.Poised := by
  simp only [turn] at h
  split at h
  · exact turnText_poised h
  · rename_i hm
    exact turnTagOpen_poised (by simpa [Poised, hm] using hs) h
  · exact emit_poised (.inr (.inr ⟨_, rfl⟩)) h
  · exact turnAttributeName_poised h
  · exact turnAttributeValue_poised h
  · simp only [turnComment] at h
    split at h
    · split at h
      · cases h
      · exact emit_poised (.inl rfl) h
    · exact upToAngle_poised h
  · exact upToAngle_poised h
  · simp only [turnRawText] at h
    split at h
    · cases h; trivial
    · exact emit_poised (.inl rfl) h
  · cases h

/-- A turn that yields a token leaves the scanner where it can go on. -/
theorem Poised.token (hs : s.Poised) (h : s.turn = .token t s') : s'.Poised :=
  turn_poised hs (next?_of_token h)

/-- So does a turn that passes over something. -/
theorem Poised.skip (hs : s.Poised) (h : s.turn = .skip s') : s'.Poised :=
  turn_poised hs (next?_of_skip h)

/-! ## No token is empty -/

/-- A token that is yielded has the text that is taken. -/
theorem emit_eq_token {kind : TokenKind} {taken rest : List Char} {mode : ScanMode}
    (h : s.emit kind taken rest mode = .token t s') : t.text.toList = taken := by
  cases h
  exact String.toList_ofList

/-- A turn in text yields no empty token. -/
theorem turnText_ne_nil (h : s.turnText = .token t s') : t.text.toList ≠ [] := by
  simp only [turnText] at h
  split at h
  · cases h
  rename_i hrest
  split at h
  · cases h
  rename_i hcomment
  split at h
  · cases h
  split at h
  · cases h
  rename_i hbogus
  split at h
  · cases h
  rename_i htag
  rw [emit_eq_token h]
  -- where no markup begins, at least one character is text
  have hmarkup : startsMarkup s.rest = false := by simp_all [startsMarkup]
  have hlt := length_text_lt (by simpa using hrest) hmarkup
  have hlength := Text.length_breakAt startsMarkup s.rest
  intro hnil
  rw [hnil, List.length_nil] at hlength
  omega

/-- The beginning of a tag is not empty. -/
private theorem turnTagName_ne_nil {lead : List Char} (hs : lead ≠ [])
    (h : s.turnTagName lead = .token t s') :
    t.text.toList ≠ [] := by
  rw [emit_eq_token h]
  simp [hs]

/-- Neither an attribute nor the end of a tag is empty. -/
private theorem turnAttributeName_ne_nil {tag : TagInProgress}
    (h : s.turnAttributeName tag = .token t s') :
    t.text.toList ≠ [] := by
  simp only [turnAttributeName] at h
  split at h
  · cases h
  · rw [emit_eq_token h]; simp
  · rw [emit_eq_token h]; simp
  · cases h
  · rename_i c cs hangle _ hslash hrest
    split at h
    · cases h
    · rename_i hc
      -- the first character is none of those that end a name
      have hname : endsAttrName c = false := by
        have hblank := isBlank_of_skipBlanks hrest
        simp_all [endsAttrName]
      have htext : t.text.toList = s.skipBlanks.rest.takeWhile fun c => !endsAttrName c := by
        simp only [readAttribute] at h
        split at h <;> cases h <;> exact String.toList_ofList
      rw [htext, hrest]
      exact takeWhile_ne_nil (by simp [hname])

/-- A value is not empty: it has quotes, or at least one character. -/
private theorem turnAttributeValue_ne_nil {tag : TagInProgress}
    (hs : Text.startsWith (s.rest.dropWhile Text.isBlank) ">" = false)
    (h : s.turnAttributeValue tag = .token t s') : t.text.toList ≠ [] := by
  simp only [turnAttributeValue] at h
  split at h
  · cases h
  · rename_i c cs hrest
    split at h
    · split at h
      · cases h
      · rw [emit_eq_token h]; simp
    · rw [emit_eq_token h, hrest]
      have hblank := isBlank_of_skipBlanks hrest
      have hangle : c ≠ '>' := by
        rintro rfl
        rw [show s.rest.dropWhile Text.isBlank = '>' :: cs from hrest] at hs
        simp [Text.startsWith] at hs
      exact takeWhile_ne_nil (by simp [endsBareValue, hblank, hangle])

/-- What goes up to a `>` is not empty. -/
private theorem upToAngle_ne_nil {kind : TokenKind} {fault : ScanFault}
    (h : s.upToAngle kind fault = .token t s') :
    t.text.toList ≠ [] := by
  simp only [upToAngle] at h
  split at h
  · cases h
  · rw [emit_eq_token h]; simp

/-- A comment is not empty. -/
private theorem turnComment_ne_nil (h : s.turnComment = .token t s') : t.text.toList ≠ [] := by
  simp only [turnComment] at h
  split at h
  · split at h
    · cases h
    · rename_i hbody
      rw [emit_eq_token h]
      -- the end of the comment is part of the token
      intro hnil
      have hend := (List.append_eq_nil_iff.mp hnil).2
      rw [List.take_eq_nil_iff] at hend
      simp_all
  · exact upToAngle_ne_nil h

/-- A scanner that expects what can come next yields no empty token. -/
private theorem turn_ne_nil (hs : s.Poised) (h : s.turn = .token t s') : t.text.toList ≠ [] := by
  simp only [turn] at h
  split at h
  · exact turnText_ne_nil h
  · cases h
  · rename_i lead hm
    simp only [Poised, hm] at hs
    obtain ⟨closing, c, cs, -, rfl, -⟩ := hs
    exact turnTagName_ne_nil (by cases closing <;> simp) h
  · exact turnAttributeName_ne_nil h
  · rename_i tag hm
    exact turnAttributeValue_ne_nil (by simpa [Poised, hm] using hs) h
  · exact turnComment_ne_nil h
  · exact upToAngle_ne_nil h
  · simp only [turnRawText] at h
    split at h
    · cases h
    · rename_i hrun
      rw [emit_eq_token h]
      -- the end tag does not come at once
      simpa using hrun
  · cases h

/-- Text is all that may end with the source; everything else yields something or is a fault. -/
theorem mode_of_finished (hs : s.Poised) (h : s.turn = .finished) : s.mode = .text := by
  cases hm : s.mode with
  | text => rfl
  | tagOpen => simp [turn, hm, turnTagOpen] at h
  | tagName lead => simp [turn, hm, turnTagName, emit] at h
  | attributeName tag =>
    simp only [turn, hm, turnAttributeName] at h
    split at h
    · cases h
    · cases h
    · cases h
    · cases h
    · split at h
      · cases h
      · simp only [readAttribute] at h
        split at h <;> cases h
  | attributeValue tag =>
    simp only [turn, hm, turnAttributeValue] at h
    repeat' split at h
    all_goals cases h
  | comment =>
    simp only [turn, hm, turnComment, upToAngle] at h
    repeat' split at h
    all_goals cases h
  | doctype =>
    simp only [turn, hm, upToAngle] at h
    split at h <;> cases h
  | rawText name =>
    simp only [turn, hm, turnRawText] at h
    split at h <;> cases h
  | failed => simp [Poised, hm] at hs

/-- The scanner finishes only where there is nothing more to read, and not inside a tag. -/
private theorem turn_finished (hs : s.Poised) (h : s.turn = .finished) :
    s.ahead = [] ∧ s.mode.inTag = false := by
  have hm := mode_of_finished hs h
  refine ⟨?_, by rw [hm]; rfl⟩
  rw [ahead_eq (by rw [hm]; rfl)]
  simp only [turn, hm, turnText] at h
  split at h
  · rename_i hrest
    exact List.isEmpty_iff.mp hrest
  · repeat' split at h
    all_goals cases h

end Scanner

/-! ## Tiles -/

/-- The tokens tile the text that begins at a point: non-empty slices with only gaps between them,
each where its location tells.  `inTag` tells whether the text begins inside a tag.  After the last
token there is nothing left if they tile the `whole` text. -/
def Token.Tiles (whole : Prop) : Bool → Position → List Char → List Token → Prop
  | inTag, _, cs, [] => whole → inTag = false ∧ cs = []
  | inTag, p, cs, t :: ts =>
    ∃ gap later, cs = gap ++ t.text.toList ++ later ∧ IsGap inTag gap ∧ t.text.toList ≠ [] ∧
      t.kind.inTag = inTag ∧ t.location = .covering (p.advance gap) t.text.toList ∧
      Token.Tiles whole t.kind.leadsIntoTag (p.advance (gap ++ t.text.toList)) later ts

namespace Token.Tiles

variable {whole : Prop} {inTag : Bool} {p : Position} {cs : List Char} {ts : List Token}

/-- A gap before the text belongs to the gap before the first token. -/
private theorem prepend {gap : List Char} (hgap : IsGap inTag gap)
    (h : Tiles whole inTag (p.advance gap) cs ts) :
    Tiles whole inTag p (gap ++ cs) ts := by
  cases ts with
  | nil =>
    intro hwhole
    obtain ⟨hin, hcs⟩ := h hwhole
    refine ⟨hin, ?_⟩
    -- outside of a tag there are no gaps
    rw [hcs, List.append_nil]
    exact List.eq_nil_iff_forall_not_mem.mpr fun c hc => by simpa [hin] using (hgap c hc).1
  | cons t ts =>
    obtain ⟨gap', later, rfl, hgap', hne, hin, hlocation, hlater⟩ := h
    refine ⟨gap ++ gap', later, by simp, hgap.append hgap', hne, hin, ?_, ?_⟩
    · rw [hlocation, Position.advance_append]
    · rw [List.append_assoc, Position.advance_append]
      exact hlater

end Token.Tiles

namespace Scanner

/-- A run of the scanner tiles what it reads, and the whole of it if it ends without a fault. -/
theorem run_tiles {s : Scanner} (hs : s.Poised) :
    Token.Tiles (s.run.failure = none) s.mode.inTag s.position s.ahead s.run.tokens := by
  fun_induction run s with
  | case1 s t s' hturn later =>
    rename_i ih
    have hfollows := s.turn_follows
    rw [hturn] at hfollows
    obtain ⟨before, after, hreads, hlocation, hin, hnext, hbefore, hafter⟩ := hfollows
    have hlater := ih (hs.token hturn)
    -- what the turn reads after the token belongs to the gap before the next token
    rw [hnext] at hafter hlater
    rw [hreads.2, Position.advance_append] at hlater
    exact ⟨before, after ++ s'.ahead,
      by rw [hreads.1, List.append_assoc], hbefore, turn_ne_nil hs hturn, hin,
      hlocation, hlater.prepend hafter⟩
  | case2 s s' hturn ih =>
    have hfollows := s.turn_follows
    rw [hturn] at hfollows
    obtain ⟨taken, hreads, hmode, hgap⟩ := hfollows
    have hlater := ih (hs.skip hturn)
    rw [hmode, hreads.2] at hlater
    rw [hreads.1]
    exact hlater.prepend hgap
  | case3 s e hturn =>
    intro hnone
    cases hnone
  | case4 s hturn =>
    intro _
    obtain ⟨hrest, hmode⟩ := turn_finished hs hturn
    exact ⟨hmode, hrest⟩

end Scanner

/-! ## What tiling means -/

/-- The token is a non-empty slice of the source, and its location tells where: how many bytes, line
breaks and characters of the last line come before it, and how many bytes it has. -/
structure Token.IsSliceOf (source : List Char) (t : Token) : Prop where
  ne_nil : t.text.toList ≠ []
  stands : ∃ before after, source = before ++ t.text.toList ++ after ∧
    t.location.offset = byteLength before ∧ t.location.size = byteLength t.text.toList ∧
    t.location.line = 1 + before.count '\n' ∧
    t.location.column = 1 + (before.reverse.takeWhile (· != '\n')).length

/-- The place of a token lies inside a tag: before it there is the beginning of the tag, at it or
after it the end of the tag, and between the two there are only attributes. -/
def Token.InsideTag (ts : List Token) (i : Nat) : Prop :=
  ∃ j k, j < i ∧ i ≤ k ∧ ts[j]?.map Token.kind = some .tagOpen ∧
    ts[k]?.map Token.kind = some .tagClose ∧ ∀ l, j < l → l < k →
      ts[l]?.map Token.kind = some .attrName ∨ ts[l]?.map Token.kind = some .attrValue

/-- Each gap followed by its token, all in a row. -/
def Token.join (gaps : List (List Char)) (ts : List Token) : List Char :=
  (List.zipWith (fun gap t => gap ++ t.text.toList) gaps ts).flatten

namespace TokenKind

/-- Between two tokens of a tag stand attributes only. -/
private theorem eq_of_inTag_of_leadsIntoTag {kind : TokenKind} (h : kind.inTag = true)
    (h' : kind.leadsIntoTag = true) : kind = .attrName ∨ kind = .attrValue := by
  cases kind <;> simp_all [inTag, leadsIntoTag]

/-- Only its end leads out of a tag. -/
private theorem eq_tagClose {kind : TokenKind} (h : kind.inTag = true)
    (h' : kind.leadsIntoTag = false) :
    kind = .tagClose := by
  cases kind <;> simp_all [inTag, leadsIntoTag]

/-- Only its beginning leads into a tag. -/
private theorem eq_tagOpen {kind : TokenKind} (h : kind.inTag = false)
    (h' : kind.leadsIntoTag = true) :
    kind = .tagOpen := by
  cases kind <;> simp_all [inTag, leadsIntoTag]

end TokenKind

namespace Token.Tiles

variable {whole : Prop} {inTag : Bool} {p : Position} {cs : List Char} {ts : List Token}

/-- Every token is a slice of the source. -/
theorem isSliceOf {source before : List Char}
    (h : Tiles whole inTag (Position.start.advance before) cs ts)
    (hsource : source = before ++ cs) : ∀ t ∈ ts, t.IsSliceOf source := by
  induction ts generalizing inTag before cs with
  | nil => simp
  | cons t ts ih =>
    obtain ⟨gap, later, rfl, -, hne, -, hlocation, hlater⟩ := h
    rw [← Position.advance_append] at hlocation hlater
    intro u hu
    cases List.mem_cons.mp hu with
    | inl hu =>
      subst hu
      rw [Position.advance_start] at hlocation
      refine ⟨hne, before ++ gap, later, by rw [hsource]; simp, ?_⟩
      rw [hlocation]
      exact ⟨rfl, rfl, rfl, rfl⟩
    | inr hu => exact ih hlater (by rw [hsource]; simp) u hu

/-- No token begins before the text does. -/
private theorem le_offset (h : Tiles whole inTag p cs ts) :
    ∀ t ∈ ts, p.offset ≤ t.location.offset := by
  induction ts generalizing inTag p cs with
  | nil => simp
  | cons t ts ih =>
    obtain ⟨gap, later, -, -, -, -, hlocation, hlater⟩ := h
    intro u hu
    cases List.mem_cons.mp hu with
    | inl hu =>
      subst hu
      rw [hlocation]
      show p.offset ≤ (p.advance gap).offset
      rw [Position.offset_advance]
      omega
    | inr hu =>
      have hle := ih hlater u hu
      rw [Position.offset_advance] at hle
      omega

/-- A token stops before the tokens after it begin. -/
theorem pairwise (h : Tiles whole inTag p cs ts) :
    ts.Pairwise fun t u => t.location.stop ≤ u.location.offset := by
  induction ts generalizing inTag p cs with
  | nil => exact .nil
  | cons t ts ih =>
    obtain ⟨gap, later, -, -, -, -, hlocation, hlater⟩ := h
    refine List.pairwise_cons.mpr ⟨fun u hu => ?_, ih hlater⟩
    have hle := hlater.le_offset u hu
    have hstop : t.location.stop = (p.advance (gap ++ t.text.toList)).offset := by
      rw [hlocation, Position.advance_append, Position.offset_advance]
      rfl
    omega

/-- Nothing is lost: the text is the gaps and the tokens in a row. -/
private theorem exists_gaps (h : Tiles whole inTag p cs ts) (hwhole : whole) :
    ∃ gaps, gaps.length = ts.length ∧ cs = join gaps ts ∧
      ∀ i gap t, gaps[i]? = some gap → ts[i]? = some t → IsGap t.kind.inTag gap ∧
        t.location.offset = p.offset + byteLength (join (gaps.take i) (ts.take i) ++ gap) := by
  induction ts generalizing inTag p cs with
  | nil => exact ⟨[], rfl, (h hwhole).2, by simp⟩
  | cons t ts ih =>
    obtain ⟨gap, later, rfl, hgap, -, hin, hlocation, hlater⟩ := h
    obtain ⟨gaps, hlength, rfl, hgaps⟩ := ih hlater
    refine ⟨gap :: gaps, by simp [hlength], by simp [join], ?_⟩
    intro i gap' u hgap' hu
    -- offsets are counted from where the first token was looked for
    cases i with
    | zero =>
      cases hgap'
      cases hu
      refine ⟨hin ▸ hgap, ?_⟩
      rw [hlocation]
      show (p.advance gap).offset = _
      rw [Position.offset_advance]
      simp [join]
    | succ i =>
      obtain ⟨hisGap, hoffset⟩ := hgaps i gap' u (by simpa using hgap') (by simpa using hu)
      refine ⟨hisGap, ?_⟩
      rw [hoffset, Position.offset_advance]
      simp [join]
      omega

/-- The last token stops where the text does. -/
private theorem stop_getLast? (h : Tiles whole inTag p cs ts) (hwhole : whole) {t : Token}
    (ht : ts.getLast? = some t) : t.location.stop = p.offset + byteLength cs := by
  induction ts generalizing inTag p cs with
  | nil => cases ht
  | cons u ts ih =>
    obtain ⟨gap, later, rfl, -, -, -, hlocation, hlater⟩ := h
    cases ts with
    | nil =>
      rw [List.getLast?_singleton, Option.some.injEq] at ht
      rw [← ht, (hlater hwhole).2, hlocation, Location.stop, Location.covering]
      show (p.advance gap).offset + _ = _
      rw [Position.offset_advance]
      simp only [List.append_nil, byteLength_append]
      omega
    | cons u' ts =>
      rw [List.getLast?_cons_cons] at ht
      rw [ih hlater ht, Position.offset_advance]
      simp only [byteLength_append]
      omega

/-- From inside a tag on, there are only attributes up to its end. -/
theorem exists_attributes (h : Tiles whole true p cs ts) (hwhole : whole) :
    ∃ attributes last rest, ts = attributes ++ last :: rest ∧
      (∀ t ∈ attributes, t.kind = .attrName ∨ t.kind = .attrValue) ∧ last.kind = .tagClose := by
  induction ts generalizing p cs with
  | nil => cases (h hwhole).1
  | cons t ts ih =>
    obtain ⟨gap, later, -, -, -, hin, -, hlater⟩ := h
    cases hleads : t.kind.leadsIntoTag with
    | false => exact ⟨[], t, ts, rfl, by simp, TokenKind.eq_tagClose hin hleads⟩
    | true =>
      rw [hleads] at hlater
      obtain ⟨attributes, last, rest, rfl, hattributes, hlast⟩ := ih hlater
      refine ⟨t :: attributes, last, rest, rfl, ?_, hlast⟩
      intro u hu
      cases List.mem_cons.mp hu with
      | inl hu => rw [hu]; exact TokenKind.eq_of_inTag_of_leadsIntoTag hin hleads
      | inr hu => exact hattributes u hu

/-- The same by numbers. -/
private theorem exists_tagClose (h : Tiles whole true p cs ts) (hwhole : whole) :
    ∃ k, ts[k]?.map Token.kind = some .tagClose ∧
      ∀ l : Nat, l < k → ts[l]?.map Token.kind = some .attrName ∨
      ts[l]?.map Token.kind = some .attrValue := by
  obtain ⟨attributes, last, rest, rfl, hattributes, hlast⟩ := h.exists_attributes hwhole
  refine ⟨attributes.length, by simp [hlast], fun l hl => ?_⟩
  rw [List.getElem?_append_left hl, List.getElem?_eq_getElem hl]
  simpa using hattributes _ (List.getElem_mem hl)

/-- A token that stands inside a tag has the end of the tag at it or after it, and before it either
the beginning of the tag or, if the text begins inside a tag, only attributes. -/
private theorem tag_around (h : Tiles whole inTag p cs ts) (hwhole : whole) {i : Nat} {t : Token}
    (ht : ts[i]? = some t) (hin : t.kind.inTag = true) :
    InsideTag ts i ∨ (inTag = true ∧ ∀ l, l < i →
      ts[l]?.map Token.kind = some .attrName ∨ ts[l]?.map Token.kind = some .attrValue) := by
  induction ts generalizing inTag p cs i with
  | nil => cases ht
  | cons u ts ih =>
    have hall := h
    obtain ⟨gap, later, -, -, -, huin, -, hlater⟩ := h
    cases i with
    | zero =>
      cases ht
      exact .inr ⟨huin.symm.trans hin, by simp⟩
    | succ i =>
      rw [List.getElem?_cons_succ] at ht
      obtain ⟨j, k, hj, hk, hopen, hclose, hbetween⟩ | ⟨hleads, hbefore⟩ := ih hlater ht
      · refine .inl
          ⟨j + 1, k + 1, by omega, by omega, by simpa using hopen, by simpa using hclose, ?_⟩
        intro l hjl hlk
        cases l with
        | zero => omega
        | succ l => simpa using hbetween l (by omega) (by omega)
      · cases inTag with
        | true =>
          -- the first token is an attribute of the tag that the text begins in
          refine .inr ⟨rfl, fun l hl => ?_⟩
          cases l with
          | zero => simpa using TokenKind.eq_of_inTag_of_leadsIntoTag huin hleads
          | succ l => simpa using hbefore l (by omega)
        | false =>
          -- the first token is the beginning of the tag
          rw [hleads] at hlater
          obtain ⟨k, hk, hbetween⟩ := hlater.exists_tagClose hwhole
          have hik : i ≤ k := by
            refine Nat.le_of_not_lt fun hlt => ?_
            have hattr := hbefore k hlt
            simp [hk] at hattr
          refine .inl ⟨0, k + 1, by omega, by omega, by simp [TokenKind.eq_tagOpen huin hleads],
            by simpa using hk, ?_⟩
          intro l hl hlk
          cases l with
          | zero => omega
          | succ l => simpa using hbetween l (by omega)

end Token.Tiles

/-- Whether or not a source can be cut up, its tokens are non-empty slices of it at the places that
their locations tell, and come one after the other.  If it can be cut up, nothing is lost: the
source is the gaps and the tokens in a row up to its end, and a gap that is not empty lies inside a
tag and has only blanks, slashes and equals signs. -/
theorem tokenize_tiles (source : String) :
    (∀ t ∈ (tokenize source).tokens, t.IsSliceOf source.toList) ∧
    ((tokenize source).tokens.Pairwise fun t u => t.location.stop ≤ u.location.offset) ∧
    ((tokenize source).failure = none →
      (∀ t, (tokenize source).tokens.getLast? = some t →
        t.location.stop = byteLength source.toList) ∧
      ∃ gaps, gaps.length = (tokenize source).tokens.length ∧
        source.toList = Token.join gaps (tokenize source).tokens ∧
        ∀ i gap t, gaps[i]? = some gap → (tokenize source).tokens[i]? = some t →
          t.location.offset = byteLength
            (Token.join (gaps.take i) ((tokenize source).tokens.take i) ++ gap) ∧
          (gap ≠ [] → (∀ c ∈ gap, Text.isBlank c = true ∨ c = '/' ∨ c = '=') ∧
            Token.InsideTag (tokenize source).tokens i)) := by
  have htiles : Token.Tiles ((tokenize source).failure = none) false Position.start source.toList
      (tokenize source).tokens := Scanner.run_tiles (s := .ofSource source.toList) trivial
  have hstart : Position.start.offset = 0 := rfl
  refine ⟨htiles.isSliceOf (List.nil_append _).symm, htiles.pairwise,
    fun hwhole => ⟨fun t ht => ?_, ?_⟩⟩
  · rw [htiles.stop_getLast? hwhole ht, hstart, Nat.zero_add]
  · obtain ⟨gaps, hlength, hsource, hgaps⟩ := htiles.exists_gaps hwhole
    refine ⟨gaps, hlength, hsource, fun i gap t hgap ht => ?_⟩
    obtain ⟨hisGap, hoffset⟩ := hgaps i gap t hgap ht
    rw [hstart, Nat.zero_add] at hoffset
    refine ⟨hoffset, fun hne => ⟨fun c hc => ?_, ?_⟩⟩
    · have hfiller := (hisGap c hc).2
      simpa [isFiller, or_assoc] using hfiller
    · obtain ⟨c, hc⟩ := List.exists_mem_of_ne_nil gap hne
      exact (htiles.tag_around hwhole ht (hisGap c hc).1).resolve_right (by simp)

/-- Two tags with gaps, and text on two lines between them. -/
theorem tokenize_tiles_link :
    (tokenize "<a href = 'x' / >é\ny</a >").failure = none ∧
    (∀ t ∈ (tokenize "<a href = 'x' / >é\ny</a >").tokens,
      t.IsSliceOf "<a href = 'x' / >é\ny</a >".toList) ∧
    ∃ gaps, gaps.length = (tokenize "<a href = 'x' / >é\ny</a >").tokens.length ∧
      "<a href = 'x' / >é\ny</a >".toList =
        Token.join gaps (tokenize "<a href = 'x' / >é\ny</a >").tokens := by
  have hwhole : (tokenize "<a href = 'x' / >é\ny</a >").failure = none := by decide +kernel
  obtain ⟨hslices, -, hsuccess⟩ := tokenize_tiles "<a href = 'x' / >é\ny</a >"
  obtain ⟨-, gaps, hlength, hsource, -⟩ := hsuccess hwhole
  exact ⟨hwhole, hslices, gaps, hlength, hsource⟩

end HtmlLint
