import HtmlLint.Proofs.Token.Markup
import HtmlLint.Proofs.Token.Tiling

/-!
# How tokens are cut

`Scanner.Cut` lists the tokens that a scanner can cut from a text, one constructor for each, with
what they are made of and what may follow them.  It is a complete account of the turns that yield a
token: every such turn makes one of these cuts (`Scanner.turn_makesCut`), and wherever one of them
can be made, it is (`Scanner.Cut.turn_eq`).

A cut depends on little of what follows the token, and never on what stands beyond the next `>`.  So
cuts can be carried over from one text to another, for which only the side conditions of the
constructors need to be looked at.
-/

namespace HtmlLint

/-! ## Cuts -/

namespace Scanner

/-- In a mode, at a point and before a text of four parts: blanks, the characters of a token of this
kind, what the scanner passes over after the token, and what it leaves for the next mode. -/
inductive Cut (p : Position) :
    ScanMode → List Char → TokenKind → List Char → List Char → List Char → ScanMode → Prop where
  /-- text up to the next markup -/
  | text {cs w : List Char} (hne : cs ≠ [])
      (hstop : Text.breakAt startsMarkup (cs ++ w) = (cs, w)) : Cut p .text [] .text cs [] w .text
  /-- text up to the end tag of the element -/
  | rawText {name : String} {cs w : List Char} (hne : cs ≠ [])
      (hstop : Text.breakAt (startsEndTagOf name) (cs ++ w) = (cs, w)) :
      Cut p (.rawText name) [] .text cs [] w .text
  /-- the beginning of a tag, of which something has been read -/
  | tagOpen {c : Char} {cs w : List Char} (closing : Bool) (hc : c.isAlpha = true)
      (hname : ∀ x ∈ c :: cs, isNameChar x = true) (hstop : Text.Stops isNameChar w) :
      Cut p (.tagName (if closing then ['<', '/'] else ['<'])) [] .tagOpen
        ((if closing then ['<', '/'] else ['<']) ++ c :: cs) [] w
        (.attributeName ⟨String.ofList (c :: cs), closing, p⟩)
  /-- an attribute that no equals sign follows -/
  | attrName {tag : TagInProgress} {gap name w : List Char}
      (hgap : ∀ x ∈ gap, Text.isBlank x = true)
      (hne : name ≠ []) (hname : ∀ x ∈ name, endsAttrName x = false)
      (hstop : Text.Stops (!endsAttrName ·) w)
      (hnext : Text.Stops (· == '=') (w.dropWhile Text.isBlank)) :
      Cut p (.attributeName tag) gap .attrName name [] w (.attributeName tag)
  /-- an attribute with an equals sign, after which a value is expected unless the tag ends -/
  | attrKey {tag : TagInProgress} {gap name gap' w : List Char}
      (hgap : ∀ x ∈ gap, Text.isBlank x = true)
      (hne : name ≠ []) (hname : ∀ x ∈ name, endsAttrName x = false)
      (hgap' : ∀ x ∈ gap', Text.isBlank x = true) :
      Cut p (.attributeName tag) gap .attrName name (gap' ++ ['=']) w
        (if Text.startsWith (w.dropWhile Text.isBlank) ">" then .attributeName tag
          else .attributeValue tag)
  /-- the end of a tag -/
  | tagClose {tag : TagInProgress} {gap w : List Char} (hgap : ∀ x ∈ gap, Text.isBlank x = true) :
      Cut p (.attributeName tag) gap .tagClose ['>'] [] w (afterTag tag)
  /-- the end of a tag with a slash -/
  | selfClose {tag : TagInProgress} {gap w : List Char} (hgap : ∀ x ∈ gap, Text.isBlank x = true) :
      Cut p (.attributeName tag) gap .tagClose ['/', '>'] [] w .text
  /-- a value in quotes -/
  | quoted {tag : TagInProgress} {gap inner w : List Char} {q : Char}
      (hgap : ∀ x ∈ gap, Text.isBlank x = true) (hq : q = '"' ∨ q = '\'') (hinner : q ∉ inner) :
      Cut p (.attributeValue tag) gap .attrValue (q :: inner ++ [q]) [] w (.attributeName tag)
  /-- a value without quotes -/
  | bare {tag : TagInProgress} {c : Char} {gap cs w : List Char}
      (hgap : ∀ x ∈ gap, Text.isBlank x = true)
      (hc : c ≠ '"' ∧ c ≠ '\'') (hvalue : ∀ x ∈ c :: cs, endsBareValue x = false)
      (hstop : Text.Stops (!endsBareValue ·) w) :
      Cut p (.attributeValue tag) gap .attrValue (c :: cs) [] w (.attributeName tag)
  /-- a comment -/
  | comment {body w : List Char}
      (hstop : Text.breakAt (Text.startsWith · "-->") (body ++ ("-->".toList ++ w)) =
        (body, "-->".toList ++ w)) :
      Cut p .comment [] .comment ("<!--".toList ++ body ++ "-->".toList) [] w .text
  /-- something in place of a comment -/
  | bogus {body w : List Char} (hbody : '>' ∉ body)
      (hno : Text.startsWith (body ++ '>' :: w) "<!--" = false) :
      Cut p .comment [] .comment (body ++ ['>']) [] w .text
  /-- a doctype -/
  | doctype {body w : List Char} (hbody : '>' ∉ body) :
      Cut p .doctype [] .doctype (body ++ ['>']) [] w .text

variable {p : Position} {s s' : Scanner} {t : Token} {tag : TagInProgress}

/-! ## Every cut is made -/

/-- After a tag there is text, whatever the tag. -/
theorem afterTag_cases (tag : TagInProgress) :
    afterTag tag = .text ∨ ∃ name, afterTag tag = .rawText name := by
  unfold afterTag
  split
  · exact .inr ⟨_, rfl⟩
  · exact .inl rfl

/-- The blanks before something else are skipped, all of them and nothing more. -/
theorem skipBlanks_of_stops (p : Position) (mode : ScanMode) {gap : List Char} (cs : List Char)
    (hgap : ∀ x ∈ gap, Text.isBlank x = true) (hcs : Text.Stops Text.isBlank cs) :
    skipBlanks ⟨p, gap ++ cs, mode⟩ = ⟨p.advance gap, cs, mode⟩ := by
  simp only [skipBlanks, read, Text.takeWhile_append_of_stops hgap hcs,
    Text.dropWhile_append_of_stops hgap hcs]

/-- What may stand in the name of an attribute is not blank. -/
theorem isBlank_of_not_endsAttrName {c : Char} (h : endsAttrName c = false) :
    Text.isBlank c = false := by
  simp_all [endsAttrName]

/-- What reading an attribute yields, in terms of its name and of what comes after it. -/
private theorem readAttribute_eq {mode : ScanMode} {name after : List Char}
    (hname : ∀ x ∈ name, endsAttrName x = false) (hstop : Text.Stops (!endsAttrName ·) after) :
    readAttribute ⟨p, name ++ after, mode⟩ tag =
      match after.dropWhile Text.isBlank with
      | '=' :: w =>
        .token ⟨.attrName, String.ofList name, .covering p name⟩
          ⟨p.advance (name ++ after.takeWhile Text.isBlank ++ ['=']), w,
            if Text.startsWith (w.dropWhile Text.isBlank) ">" then .attributeName tag
              else .attributeValue tag⟩
      | _ =>
        .token ⟨.attrName, String.ofList name, .covering p name⟩
            ⟨p.advance name, after, .attributeName tag⟩ := by
  have hall : ∀ x ∈ name, (!endsAttrName x) = true := by simpa using hname
  have htake := Text.takeWhile_append_of_stops hall hstop
  have hdrop := Text.dropWhile_append_of_stops hall hstop
  split
  · rename_i w hw
    simp only [readAttribute, read, htake, hdrop, hw]
  · simp only [readAttribute, read, htake, hdrop]

/-- What reading up to a `>` yields, in terms of what stands before it. -/
private theorem upToAngle_eq (p : Position) (mode : ScanMode) (kind : TokenKind) (fault : ScanFault)
    {body : List Char} (w : List Char) (hbody : '>' ∉ body) :
    upToAngle ⟨p, body ++ ['>'] ++ w, mode⟩ kind fault =
      .token ⟨kind, String.ofList (body ++ ['>']), .covering p (body ++ ['>'])⟩
        ⟨p.advance (body ++ ['>']), w, .text⟩ := by
  have hall : ∀ x ∈ body, (x != '>') = true := by
    intro x hx
    exact bne_iff_ne.mpr fun heq => hbody (heq ▸ hx)
  have hstop : Text.Stops (· != '>') ('>' :: w) := .cons (by decide)
  rw [List.append_assoc, List.singleton_append]
  simp only [upToAngle, Text.dropWhile_append_of_stops hall hstop,
    Text.takeWhile_append_of_stops hall hstop, emit, read]

/-- The scanner in a mode with a text ahead. -/
def before (p : Position) (cs : List Char) (mode : ScanMode) : Scanner :=
  ⟨p, cs.drop mode.lead.length, mode⟩

/-- Where nothing has been read of the next token, the whole text is left. -/
theorem before_eq {mode : ScanMode} (h : mode.lead = []) (p : Position) (cs : List Char) :
    before p cs mode = ⟨p, cs, mode⟩ := by
  rw [before, h, List.length_nil, List.drop_zero]

/-- Every scanner is in its mode with what it has ahead. -/
theorem before_ahead (s : Scanner) : before s.position s.ahead s.mode = s := by
  rw [before, ahead, List.drop_left]

/-- After a token nothing has been read of the next one. -/
theorem Cut.lead_next {mode next : ScanMode} {gap text after w : List Char} {kind : TokenKind}
    (h : Cut p mode gap kind text after w next) : next.lead = [] := by
  cases h with
  | attrKey => split <;> rfl
  | @tagClose tag => obtain hnext | ⟨name, hnext⟩ := afterTag_cases tag <;> rw [hnext] <;> rfl
  | text | rawText | tagOpen | attrName | selfClose | quoted | bare | comment | bogus
    | doctype => rfl

/-- A cut is made by a scanner that has read nothing of the token. -/
theorem Cut.turn_eq_of_lead {mode next : ScanMode} {gap text after w : List Char} {kind : TokenKind}
    (h : Cut p mode gap kind text after w next) (hlead : mode.lead = []) :
    turn ⟨p, gap ++ text ++ after ++ w, mode⟩ =
      .token ⟨kind, String.ofList text, .covering (p.advance gap) text⟩
        ⟨p.advance (gap ++ text ++ after), w, next⟩ := by
  cases h with
  | text hne hstop =>
    have hno : startsMarkup (text ++ w) = false := Text.of_breakAt_ne_nil (by rw [hstop]; exact hne)
    have hturn := turnText_of_not_startsMarkup (s := ⟨p, text ++ w, .text⟩) (by simp [hne]) hno
    simp only [hstop] at hturn
    simpa [turn, emit, read] using hturn
  | rawText hne hstop => simp [turn, turnRawText, hstop, hne, emit, read]
  | tagOpen closing => cases closing <;> cases hlead
  | @attrName tag gap name w hgap hne hname hstop hnext =>
    obtain ⟨c, cs, rfl⟩ := List.exists_cons_of_ne_nil hne
    have hc : endsAttrName c = false := hname c (List.mem_cons_self ..)
    have hskip := skipBlanks_of_stops p (.attributeName tag) (c :: cs ++ w) hgap
      (.cons (isBlank_of_not_endsAttrName hc))
    simp only [List.append_nil, List.append_assoc]
    show turnAttributeName _ tag = _
    rw [turnAttributeName_of_key tag (by rw [hskip]; rfl) hc, hskip, readAttribute_eq hname hstop]
    split
    · rename_i v hv
      have := hnext '=' (by rw [hv]; rfl)
      simp at this
    · rw [Position.advance_append]
  | @attrKey tag gap name gap' w hgap hne hname hgap' =>
    obtain ⟨c, cs, rfl⟩ := List.exists_cons_of_ne_nil hne
    have hc : endsAttrName c = false := hname c (List.mem_cons_self ..)
    have hskip := skipBlanks_of_stops p (.attributeName tag) (c :: cs ++ (gap' ++ '=' :: w)) hgap
      (.cons (isBlank_of_not_endsAttrName hc))
    -- what ends the key is a blank or the equals sign
    have hstop : Text.Stops (!endsAttrName ·) (gap' ++ '=' :: w) := by
      cases gap' with
      | nil => exact .cons (by decide)
      | cons x gap' =>
        have hx := hgap' x (List.mem_cons_self ..)
        exact .cons (by simp [endsAttrName, hx])
    have hequals : Text.Stops Text.isBlank ('=' :: w) := .cons (by decide)
    have hrest : gap ++ (c :: cs) ++ (gap' ++ ['=']) ++ w =
        gap ++ (c :: cs ++ (gap' ++ '=' :: w)) := by simp
    rw [hrest]
    show turnAttributeName _ tag = _
    rw [turnAttributeName_of_key tag (by rw [hskip]; rfl) hc, hskip, readAttribute_eq hname hstop,
      Text.dropWhile_append_of_stops hgap' hequals, Text.takeWhile_append_of_stops hgap' hequals]
    simp only [← Position.advance_append, List.append_assoc]
  | @tagClose tag gap w hgap =>
    have hskip := skipBlanks_of_stops p (.attributeName tag) ('>' :: w) hgap (.cons (by decide))
    simp only [List.append_nil, List.append_assoc, List.singleton_append]
    simp [turn, turnAttributeName, hskip, emit, read]
  | @selfClose tag gap w hgap =>
    have hskip := skipBlanks_of_stops p (.attributeName tag) ('/' :: '>' :: w) hgap
      (.cons (by decide))
    simp only [List.append_nil, List.append_assoc, List.cons_append, List.nil_append]
    simp [turn, turnAttributeName, hskip, emit, read]
  | @quoted tag gap inner w q hgap hq hinner =>
    have hskip := skipBlanks_of_stops p (.attributeValue tag) (q :: (inner ++ q :: w)) hgap
      (.cons (by obtain rfl | rfl := hq <;> decide))
    have hall : ∀ x ∈ inner, (x != q) = true := by
      intro x hx
      exact bne_iff_ne.mpr fun heq => hinner (heq ▸ hx)
    have hstop : Text.Stops (· != q) (q :: w) := .cons (by simp)
    have hquote : (q == '"' || q == '\'') = true := by obtain rfl | rfl := hq <;> decide
    simp only [List.append_nil, List.append_assoc, List.cons_append, List.nil_append]
    simp only [turn, turnAttributeValue, hskip, hquote, if_true,
      Text.dropWhile_append_of_stops hall hstop,
      Text.takeWhile_append_of_stops hall hstop, emit, read, List.cons_append,
      Position.advance_append]
  | @bare tag c gap cs w hgap hc hvalue hstop =>
    have hblank : Text.isBlank c = false := by
      have hbare := hvalue c (List.mem_cons_self ..)
      simp_all [endsBareValue]
    have hskip := skipBlanks_of_stops p (.attributeValue tag) (c :: cs ++ w) hgap (.cons hblank)
    have hall : ∀ x ∈ c :: cs, (!endsBareValue x) = true := by simpa using hvalue
    have htake := Text.takeWhile_append_of_stops hall hstop
    have hdrop := Text.dropWhile_append_of_stops hall hstop
    simp only [List.append_nil, List.append_assoc, List.cons_append] at hskip htake hdrop ⊢
    simp [turn, turnAttributeValue, hskip, hc.1, hc.2, htake, hdrop, emit, read]
  | @comment body w hstop =>
    have hstarts : Text.startsWith ("<!--".toList ++ body ++ "-->".toList ++ w) "<!--" = true := by
      simp [Text.startsWith]
    have hdrop : ("<!--".toList ++ body ++ "-->".toList ++ w).drop 4 =
        body ++ ("-->".toList ++ w) := by simp
    simp only [List.nil_append, List.append_nil]
    simp only [turn, turnComment, hstarts, hdrop, hstop, if_true]
    simp [emit, read]
  | @bogus body w hbody hno =>
    have heq := upToAngle_eq p .comment .comment .unterminatedComment w hbody
    have hno' : Text.startsWith (body ++ ['>'] ++ w) "<!--" = false := by simpa using hno
    simp only [List.nil_append, List.append_nil, turn, turnComment, hno',
      Bool.false_eq_true, if_false]
    exact heq
  | @doctype body w hbody =>
    have heq := upToAngle_eq p .doctype .doctype .unterminatedDoctype w hbody
    simp only [List.nil_append, List.append_nil]
    exact heq

/-- A token goes on after what has been read of it. -/
theorem Cut.exists_more {mode next : ScanMode} {gap text after w : List Char} {kind : TokenKind}
    (h : Cut p mode gap kind text after w next) : ∃ more, more ≠ [] ∧ text = mode.lead ++ more := by
  cases h with
  | tagOpen => exact ⟨_, List.cons_ne_nil _ _, rfl⟩
  | text hne | rawText hne => exact ⟨_, hne, rfl⟩
  | attrName _ hne | attrKey _ hne => exact ⟨_, hne, rfl⟩
  | tagClose | selfClose | quoted | bare | comment | bogus | doctype => exact ⟨_, by simp, rfl⟩

/-- Wherever a cut can be made, the scanner makes it. -/
theorem Cut.turn_eq {mode next : ScanMode} {gap text after w : List Char} {kind : TokenKind}
    (h : Cut p mode gap kind text after w next) :
    (before p (gap ++ text ++ after ++ w) mode).turn =
      .token ⟨kind, String.ofList text, .covering (p.advance gap) text⟩
        ⟨p.advance (gap ++ text ++ after), w, next⟩ := by
  by_cases hlead : mode.lead = []
  · rw [before_eq hlead, h.turn_eq_of_lead hlead]
  · cases h with
    | @tagOpen c cs w closing hc hname hstop =>
      have htake := Text.takeWhile_append_of_stops hname hstop
      have hdrop := Text.dropWhile_append_of_stops hname hstop
      simp only [List.cons_append] at htake hdrop
      cases closing <;>
        simp [before, ScanMode.lead, turn, turnTagName, Text.startsWith, List.isPrefixOf, htake,
          hdrop, emit, read]
    | text | rawText | attrName | attrKey | tagClose | selfClose | quoted | bare | comment
        | bogus | doctype => exact absurd rfl hlead

/-! ## No other cut is made -/

/-- The token is cut from what is ahead, and the cut leads to the other state. -/
def MakesCut (s : Scanner) (t : Token) (s' : Scanner) : Prop :=
  ∃ gap after, s.ahead = gap ++ t.text.toList ++ after ++ s'.rest ∧
    Cut s.position s.mode gap t.kind t.text.toList after s'.rest s'.mode

/-- A token that is emitted makes a cut if there is one for what it takes. -/
private theorem emit_makesCut {u : Scanner} {kind : TokenKind} (gap : List Char)
    {taken rest : List Char} {mode : ScanMode} (hahead : s.ahead = gap ++ taken ++ rest)
    (hcut : Cut s.position s.mode gap kind taken [] rest mode)
    (h : u.emit kind taken rest mode = .token t s') : s.MakesCut t s' := by
  cases h
  refine ⟨gap, [], ?_, ?_⟩
  · simpa [read] using hahead
  · simpa [read] using hcut

/-- Text is cut where markup begins. -/
private theorem turnText_makesCut (hm : s.mode = .text) (h : s.turnText = .token t s') :
    s.MakesCut t s' := by
  have hne := turnText_ne_nil h
  simp only [turnText] at h
  split at h
  · cases h
  split at h
  · cases h
  split at h
  · cases h
  split at h
  · cases h
  split at h
  · cases h
  · rw [emit_eq_token h] at hne
    have happend := Text.breakAt_append startsMarkup s.rest
    refine emit_makesCut [] ((ahead_eq (by rw [hm]; rfl)).trans happend.symm) ?_ h
    rw [hm]
    exact .text hne (by rw [happend])

/-- Raw text is cut where the end tag of its element begins. -/
private theorem turnRawText_makesCut {name : String} (hm : s.mode = .rawText name)
    (h : s.turnRawText name = .token t s') :
    s.MakesCut t s' := by
  simp only [turnRawText] at h
  split at h
  · cases h
  · rename_i hne
    have happend := Text.breakAt_append (startsEndTagOf name) s.rest
    refine emit_makesCut [] ((ahead_eq (by rw [hm]; rfl)).trans happend.symm) ?_ h
    rw [hm]
    exact .rawText (by simpa using hne) (by rw [happend])

/-- Every letter may stand in a name. -/
theorem isNameChar_of_isAlpha {c : Char} (h : c.isAlpha = true) : isNameChar c = true := by
  have hsmall : c.toNat < 0x80 := by
    unfold Char.isAlpha Char.isUpper Char.isLower at h
    simp only [Bool.or_eq_true, Bool.and_eq_true, decide_eq_true_eq] at h
    have hletter : c.val.toNat ≤ 90 ∨ c.val.toNat ≤ 122 := h.imp (·.2) (·.2)
    show c.val.toNat < 0x80
    omega
  simp [isNameChar, Text.isLetterOrDigit, hsmall, Char.isAlphanum, h]

/-- The name of a tag that begins with a letter goes up to the first character that may not stand in
it. -/
private theorem takeWhile_isNameChar {c : Char} (hc : c.isAlpha = true) (cs : List Char) :
    (c :: cs).takeWhile isNameChar = c :: cs.takeWhile isNameChar ∧
      (c :: cs).dropWhile isNameChar = cs.dropWhile isNameChar := by
  have hname := isNameChar_of_isAlpha hc
  exact ⟨List.takeWhile_cons_of_pos hname, List.dropWhile_cons_of_pos hname⟩

/-- The beginning of a tag is cut after its name. -/
private theorem turnTagName_makesCut {closing : Bool} {c : Char} {cs : List Char}
    (hm : s.mode = .tagName (if closing then ['<', '/'] else ['<'])) (hc : c.isAlpha = true)
    (hrest : s.rest = c :: cs)
    (h : s.turnTagName (if closing then ['<', '/'] else ['<']) = .token t s') :
    s.MakesCut t s' := by
  obtain ⟨htake, hdrop⟩ := takeWhile_isNameChar hc cs
  have hclosing : Text.startsWith (if closing then ['<', '/'] else ['<']) "</" = closing := by
    cases closing <;> rfl
  -- a letter may stand anywhere in a name
  have hname : ∀ x ∈ c :: cs.takeWhile isNameChar, isNameChar x = true := by
    intro x hx
    cases List.mem_cons.mp hx with
    | inl hx => exact hx ▸ isNameChar_of_isAlpha hc
    | inr hx => exact List.all_eq_true.mp List.all_takeWhile x hx
  simp only [turnTagName, hrest, htake, hdrop, hclosing] at h
  refine emit_makesCut [] ?_ ?_ h
  · rw [ahead, hm, hrest, List.nil_append, List.append_assoc, List.cons_append,
      List.takeWhile_append_dropWhile]
    rfl
  · rw [hm]
    exact .tagOpen closing hc hname (Text.stops_dropWhile _ _)

/-- An attribute is cut after its name, with the `=` that follows. -/
private theorem readAttribute_makesCut (hm : s.mode = .attributeName tag)
    (hne : s.skipBlanks.rest.takeWhile (!endsAttrName ·) ≠ [])
    (h : s.skipBlanks.readAttribute tag = .token t s') :
    s.MakesCut t s' := by
  have hahead : s.ahead = s.rest := ahead_eq (by rw [hm]; rfl)
  have hgap : ∀ x ∈ s.rest.takeWhile Text.isBlank, Text.isBlank x = true :=
    List.all_eq_true.mp List.all_takeWhile
  have hrest : s.rest.takeWhile Text.isBlank ++ s.skipBlanks.rest = s.rest :=
    List.takeWhile_append_dropWhile
  have hsplit := List.takeWhile_append_dropWhile (p := (!endsAttrName ·)) (l := s.skipBlanks.rest)
  have hname : ∀ x ∈ s.skipBlanks.rest.takeWhile (!endsAttrName ·), endsAttrName x = false := by
    intro x hx
    simpa using List.all_eq_true.mp List.all_takeWhile x hx
  have hstop := Text.stops_dropWhile (!endsAttrName ·) s.skipBlanks.rest
  simp only [readAttribute] at h
  generalize s.skipBlanks.rest.takeWhile (!endsAttrName ·) = name at h hne hname hsplit
  generalize s.skipBlanks.rest.dropWhile (!endsAttrName ·) = after at h hstop hsplit
  split at h
  · -- the blanks before the equals sign and the sign itself come after the token
    rename_i w hw
    have hafter := List.takeWhile_append_dropWhile (p := Text.isBlank) (l := after)
    rw [hw] at hafter
    cases h
    refine ⟨s.rest.takeWhile Text.isBlank, after.takeWhile Text.isBlank ++ ['='], ?_, ?_⟩
    · simp only [String.toList_ofList, read, List.append_assoc, List.singleton_append]
      rw [hafter, hsplit, hrest, hahead]
    · simp only [String.toList_ofList, read, hm]
      exact .attrKey hgap hne hname (List.all_eq_true.mp List.all_takeWhile)
  · rename_i hequals
    cases h
    refine ⟨s.rest.takeWhile Text.isBlank, [], ?_, ?_⟩
    · simp only [String.toList_ofList, read, List.append_nil, List.append_assoc]
      rw [hsplit, hrest, hahead]
    · simp only [String.toList_ofList, read, hm]
      -- no equals sign comes first after the blanks
      refine .attrName hgap hne hname hstop ?_
      intro c hc
      refine Bool.eq_false_iff.mpr fun heq => ?_
      obtain rfl : c = '=' := by simpa using heq
      cases hdrop : after.dropWhile Text.isBlank with
      | nil => simp [hdrop] at hc
      | cons x w =>
        obtain rfl : x = '=' := by simpa [hdrop] using hc
        exact hequals w hdrop

/-- Where the name of an attribute may stand, the end of the tag or an attribute is cut off. -/
private theorem turnAttributeName_makesCut (hm : s.mode = .attributeName tag)
    (h : s.turnAttributeName tag = .token t s') :
    s.MakesCut t s' := by
  have hahead : s.ahead = s.rest := ahead_eq (by rw [hm]; rfl)
  have hgap : ∀ x ∈ s.rest.takeWhile Text.isBlank, Text.isBlank x = true :=
    List.all_eq_true.mp List.all_takeWhile
  have hrest : s.rest.takeWhile Text.isBlank ++ s.skipBlanks.rest = s.rest :=
    List.takeWhile_append_dropWhile
  simp only [turnAttributeName] at h
  split at h
  · cases h
  · rename_i w hw
    refine emit_makesCut (s.rest.takeWhile Text.isBlank) ?_ (by rw [hm]; exact .tagClose hgap) h
    rw [List.append_assoc, List.singleton_append, ← hw]
    exact hahead.trans hrest.symm
  · rename_i w hw
    refine emit_makesCut (s.rest.takeWhile Text.isBlank) ?_ (by rw [hm]; exact .selfClose hgap) h
    rw [List.append_assoc, List.cons_append, List.singleton_append, ← hw]
    exact hahead.trans hrest.symm
  · cases h
  · rename_i c cs hangle _ hslash hcs
    split at h
    · cases h
    · -- the first character is none of those that end a name
      have hc : endsAttrName c = false := by
        have hblank := isBlank_of_skipBlanks hcs
        simp_all [endsAttrName]
      have hname : s.skipBlanks.rest.takeWhile (!endsAttrName ·) ≠ [] := by
        rw [hcs]
        exact takeWhile_ne_nil (by simp [hc])
      exact readAttribute_makesCut hm hname h

/-- A value is cut after its closing quote, or before the first character that cannot stand in it.
-/
private theorem turnAttributeValue_makesCut (hm : s.mode = .attributeValue tag)
    (hs : Text.startsWith (s.rest.dropWhile Text.isBlank) ">" = false)
    (h : s.turnAttributeValue tag = .token t s') :
    s.MakesCut t s' := by
  have hahead : s.ahead = s.rest := ahead_eq (by rw [hm]; rfl)
  have hgap : ∀ x ∈ s.rest.takeWhile Text.isBlank, Text.isBlank x = true :=
    List.all_eq_true.mp List.all_takeWhile
  have hrest : s.rest.takeWhile Text.isBlank ++ s.skipBlanks.rest = s.rest :=
    List.takeWhile_append_dropWhile
  simp only [turnAttributeValue] at h
  split at h
  · cases h
  · rename_i c cs hcs
    split at h
    · rename_i hq
      split at h
      · cases h
      · rename_i x after hafter
        have hquote : c = '"' ∨ c = '\'' := by simpa using hq
        have hinner := not_mem_takeWhile_ne c cs
        refine emit_makesCut (s.rest.takeWhile Text.isBlank) ?_
          (by rw [hm]; exact .quoted hgap hquote hinner) h
        rw [List.append_assoc, List.cons_append, List.cons_append, List.append_assoc,
          List.singleton_append, ← eq_of_dropWhile_ne hafter, ← hcs]
        exact hahead.trans hrest.symm
    · rename_i hq
      have hblank := isBlank_of_skipBlanks hcs
      -- a bare value is not empty
      have hangle : c ≠ '>' := by
        rintro rfl
        rw [show s.rest.dropWhile Text.isBlank = '>' :: cs from hcs] at hs
        simp [Text.startsWith] at hs
      have hbare : (!endsBareValue c) = true := by simp [endsBareValue, hblank, hangle]
      rw [hcs, List.takeWhile_cons_of_pos (p := (!endsBareValue ·)) hbare,
        List.dropWhile_cons_of_pos (p := (!endsBareValue ·)) hbare] at h
      refine emit_makesCut (s.rest.takeWhile Text.isBlank) ?_ ?_ h
      · rw [List.append_assoc, List.cons_append, List.takeWhile_append_dropWhile, ← hcs]
        exact hahead.trans hrest.symm
      · rw [hm]
        refine .bare hgap (by simpa using hq) ?_ (Text.stops_dropWhile _ _)
        intro x hx
        cases List.mem_cons.mp hx with
        | inl hx => simpa [hx] using hbare
        | inr hx => simpa using List.all_eq_true.mp List.all_takeWhile x hx

/-- What goes up to a `>` is cut after the first one. -/
private theorem upToAngle_makesCut {kind : TokenKind} {fault : ScanFault} (hlead : s.mode.lead = [])
    (hcut : ∀ {body w : List Char}, '>' ∉ body → s.rest = body ++ '>' :: w →
      Cut s.position s.mode [] kind (body ++ ['>']) [] w .text)
    (h : s.upToAngle kind fault = .token t s') : s.MakesCut t s' := by
  simp only [upToAngle] at h
  split at h
  · cases h
  · rename_i x after hafter
    have hrest := eq_of_dropWhile_ne hafter
    refine emit_makesCut [] ?_ (hcut (not_mem_takeWhile_ne '>' s.rest) hrest) h
    rw [List.nil_append, List.append_assoc, List.singleton_append]
    exact (ahead_eq hlead).trans hrest

/-- A comment is cut after its end. -/
private theorem turnComment_makesCut (hm : s.mode = .comment) (h : s.turnComment = .token t s') :
    s.MakesCut t s' := by
  simp only [turnComment] at h
  split at h
  · rename_i hstarts
    split at h
    · cases h
    · rename_i hend
      have hstop := Text.breakAt_stop (p := (Text.startsWith · "-->")) (by simpa using hend)
      have happend := Text.breakAt_append (Text.startsWith · "-->") (s.rest.drop 4)
      obtain ⟨inner, hinner⟩ := List.isPrefixOf_iff_prefix.mp hstarts
      obtain ⟨w, hw⟩ := List.isPrefixOf_iff_prefix.mp hstop
      have hdrop : s.rest.drop 4 = inner := by rw [← hinner]; simp
      have hbreak : Text.breakAt (Text.startsWith · "-->") inner =
          ((Text.breakAt (Text.startsWith · "-->") inner).1, "-->".toList ++ w) := by
        rw [← hdrop, hw]
      rw [hdrop] at h happend
      -- the comment ends at the first `-->` after its beginning
      generalize (Text.breakAt (Text.startsWith · "-->") inner).1 = body at hbreak
      rw [hbreak] at h happend
      simp only at happend
      have htext : s.rest.take 4 ++ body ++ ("-->".toList ++ w).take 3 =
          "<!--".toList ++ body ++ "-->".toList := by
        rw [← hinner]
        simp
      have hlater : ("-->".toList ++ w).drop 3 = w := by simp
      simp only [htext, hlater] at h
      refine emit_makesCut [] ?_ ?_ h
      · rw [ahead_eq (by rw [hm]; rfl), ← hinner, ← happend]
        simp
      · rw [hm]
        exact .comment (by rw [happend, hbreak])
  · rename_i hno
    refine upToAngle_makesCut (by rw [hm]; rfl) (fun hbody hrest => ?_) h
    rw [hm]
    rw [hrest] at hno
    exact .bogus hbody (by simpa using hno)

/-- Every turn that yields a token makes a cut. -/
theorem turn_makesCut (hs : s.Poised) (h : s.turn = .token t s') : s.MakesCut t s' := by
  simp only [turn] at h
  split at h
  · exact turnText_makesCut ‹_› h
  · cases h
  · rename_i lead hm
    simp only [Poised, hm] at hs
    obtain ⟨closing, c, cs, hc, rfl, hrest⟩ := hs
    exact turnTagName_makesCut hm hc hrest h
  · exact turnAttributeName_makesCut ‹_› h
  · rename_i tag hm
    exact turnAttributeValue_makesCut hm (by simpa [Poised, hm] using hs) h
  · exact turnComment_makesCut ‹_› h
  · rename_i hm
    refine upToAngle_makesCut (by rw [hm]; rfl) (fun hbody _ => ?_) h
    rw [hm]
    exact .doctype hbody
  · exact turnRawText_makesCut ‹_› h
  · cases h

/-! ## Turns without a token -/

/-- Text is left where markup begins, and nowhere else. -/
theorem turnText_skip_iff : (∃ s', s.turnText = .skip s') ↔ startsMarkup s.rest = true := by
  constructor
  · rintro ⟨s', h⟩
    cases hmarkup : startsMarkup s.rest with
    | true => rfl
    | false =>
      by_cases hne : s.rest = []
      · simp [turnText, hne] at h
      · rw [turnText_of_not_startsMarkup hne hmarkup] at h
        cases h
  · intro h
    simp only [startsMarkup, Bool.or_eq_true] at h
    simp only [turnText]
    repeat' split
    · simp_all [startsTag, Text.startsWith]
    · exact ⟨_, rfl⟩
    · exact ⟨_, rfl⟩
    · exact ⟨_, rfl⟩
    · exact ⟨_, rfl⟩
    · simp_all

/-- Raw text is left at its end. -/
theorem turnRawText_of_end {name : String} (h : s.rest = [] ∨ startsEndTagOf name s.rest = true) :
    s.turnRawText name = .skip (s.expect .text) := by
  have hnil : (Text.breakAt (startsEndTagOf name) s.rest).1 = [] := by
    refine Classical.byContradiction fun hne => ?_
    obtain hrest | hstarts := h
    · simp [hrest, Text.breakAt] at hne
    · rw [Text.of_breakAt_ne_nil hne] at hstarts
      cases hstarts
  simp only [turnRawText, hnil]
  rfl

/-- Which markup begins is known from a part with a `>`. -/
theorem turnText_congr {p : Position} {mode : ScanMode} {a x : List Char} (ha : '>' ∈ a)
    (h : turnText ⟨p, a ++ x, mode⟩ = .skip s') (p' : Position) (mode' : ScanMode) (y : List Char) :
    turnText ⟨p', a ++ y, mode'⟩ = .skip ⟨p', a ++ y, s'.mode⟩ := by
  have hne : ∀ z : List Char, (a ++ z).isEmpty = false := by
    intro z
    cases a with
    | nil => cases ha
    | cons c a => rfl
  -- every test looks at a fixed text without a `>`, so it is decided within `a`
  simp only [turnText, hne, Text.startsWith_append_congr "<!--" ha (by decide) x y,
    Text.startsWith_append_congr "<?" ha (by decide) x y,
    Text.startsWith_append_congr "<!" ha (by decide) x y,
    Text.startsWithFolded_append_congr "<!doctype" ha (by decide) x y,
    startsTag_append_congr ha x y] at h ⊢
  split at h
  · cases h
  split at h
  · rename_i hcomment
    cases h
    rw [if_pos hcomment]
    rfl
  rename_i hcomment
  rw [if_neg hcomment]
  split at h
  · rename_i hdoctype
    cases h
    rw [if_pos hdoctype]
    rfl
  rename_i hdoctype
  rw [if_neg hdoctype]
  split at h
  · rename_i hbogus
    cases h
    rw [if_pos hbogus]
    rfl
  rename_i hbogus
  rw [if_neg hbogus]
  split at h
  · rename_i htag
    cases h
    rw [if_pos htag]
    rfl
  · cases h

/-- A turn without a token sees which markup begins, or that raw text is over, or passes over a
slash, or reads what stands before the name of a tag. -/
theorem turn_skip_cases (h : s.turn = .skip s') :
    (s.mode = .text ∧ s.turnText = .skip s' ∧
      (s' = s.expect .comment ∨ s' = s.expect .doctype ∨ s' = s.expect .tagOpen)) ∨
    (∃ name, s.mode = .rawText name ∧ s' = s.expect .text ∧
      (s.rest = [] ∨ startsEndTagOf name s.rest = true)) ∨
    (∃ tag gap w, s.mode = .attributeName tag ∧ (∀ x ∈ gap, Text.isBlank x = true) ∧
      s.rest = gap ++ '/' :: w ∧
      Text.Stops (· == '>') w ∧ s' = s.read (gap ++ ['/']) w (.attributeName tag)) ∨
    ∃ lead w, s.mode = .tagOpen ∧ s.rest = lead ++ w ∧ s' = ⟨s.position, w, .tagName lead⟩ := by
  cases hm : s.mode with
  | text =>
    refine .inl ⟨rfl, ?_⟩
    simp only [turn, hm] at h
    refine ⟨h, ?_⟩
    simp only [turnText] at h
    repeat' split at h
    all_goals cases h
    · exact .inl rfl
    · exact .inr (.inl rfl)
    · exact .inl rfl
    · exact .inr (.inr rfl)
  | rawText name =>
    refine .inr (.inl ⟨name, rfl, ?_⟩)
    simp only [turn, hm, turnRawText] at h
    split at h
    · rename_i hnil
      cases h
      refine ⟨rfl, ?_⟩
      -- nothing is read, so that the search stops at once
      have hall := Text.breakAt_append (startsEndTagOf name) s.rest
      rw [List.isEmpty_iff.mp hnil, List.nil_append] at hall
      by_cases hrest : s.rest = []
      · exact .inl hrest
      · have hstop : startsEndTagOf name (Text.breakAt (startsEndTagOf name) s.rest).2 = true :=
          Text.breakAt_stop (by rw [hall]; exact hrest)
        rw [hall] at hstop
        exact .inr hstop
    · cases h
  | attributeName tag =>
    refine .inr (.inr (.inl ⟨tag, s.rest.takeWhile Text.isBlank, ?_⟩))
    have hrest : s.rest.takeWhile Text.isBlank ++ s.skipBlanks.rest = s.rest :=
      List.takeWhile_append_dropWhile
    simp only [turn, hm, turnAttributeName] at h
    split at h
    · cases h
    · cases h
    · cases h
    · rename_i w hangle hw
      cases h
      refine ⟨w, rfl, List.all_eq_true.mp List.all_takeWhile, by rw [← hw, hrest], ?_, ?_⟩
      · intro c hc
        refine Bool.eq_false_iff.mpr fun heq => ?_
        obtain rfl : c = '>' := by simpa using heq
        cases w with
        | nil => cases hc
        | cons x w =>
          obtain rfl : x = '>' := by simpa using hc
          exact hangle w rfl
      · simp only [read, skipBlanks, Position.advance_append]
    · split at h
      · cases h
      · simp only [readAttribute] at h
        split at h <;> cases h
  | tagOpen =>
    simp only [turn, hm, turnTagOpen, Turn.skip.injEq] at h
    exact .inr (.inr (.inr ⟨_, _, rfl, (List.take_append_drop _ _).symm, h.symm⟩))
  | tagName lead => simp [turn, hm, turnTagName, emit] at h
  | attributeValue tag =>
    simp only [turn, hm, turnAttributeValue] at h
    repeat' split at h
    all_goals cases h
  | comment =>
    simp only [turn, hm, turnComment, upToAngle] at h
    repeat' split at h
    all_goals cases h
  | doctype =>
    simp only [turn, hm, upToAngle] at h
    split at h <;> cases h
  | failed => simp [turn, hm] at h

/-- A turn without a token starts where nothing has been read of one. -/
theorem lead_of_skip (h : s.turn = .skip s') : s.mode.lead = [] := by
  obtain ⟨hm, -⟩ | ⟨name, hm, -⟩ | ⟨tag, -, -, hm, -⟩ | ⟨-, -, hm, -⟩ := turn_skip_cases h
  all_goals
    rw [hm]
    rfl

/-! ## Runs -/

/-- What every turn keeps, told from the tokens so far, holds where a token of a run is read. -/
theorem exists_turn {P : List Token → Scanner → Prop}
    (hskip : ∀ (ts : List Token) (s s' : Scanner), s.Poised → P ts s → s.turn = .skip s' → P ts s')
    (htoken : ∀ (ts : List Token) (s s' : Scanner) (t : Token), s.Poised → P ts s →
      s.turn = .token t s' → P (ts ++ [t]) s')
    {s : Scanner} (hs : s.Poised) (ts : List Token) (h : P ts s) {before after : List Token}
    {t : Token} (hrun : s.run.tokens = before ++ t :: after) :
    ∃ s₁ s₂, s₁.Poised ∧ P (ts ++ before) s₁ ∧ s₁.turn = .token t s₂ ∧ s₂.run.tokens = after := by
  -- `P` is carried along the run up to the turn that makes the token
  fun_induction run s generalizing ts before with
  | case1 s u s' hturn rest =>
    rename_i ih
    have hs' : s'.Poised := hs.token hturn
    cases before with
    | nil =>
      obtain ⟨rfl, rfl⟩ := List.cons.inj hrun
      exact ⟨s, s', hs, by rw [List.append_nil]; exact h, hturn, rfl⟩
    | cons x before =>
      obtain ⟨rfl, hlater⟩ := List.cons.inj hrun
      obtain ⟨s₁, s₂, hpoised, hP, hfound⟩ := ih hs' _ (htoken ts s s' u hs h hturn) hlater
      refine ⟨s₁, s₂, hpoised, ?_, hfound⟩
      rw [← List.append_cons] at hP
      exact hP
  | case2 s s' hturn ih =>
    exact ih (hs.skip hturn) ts (hskip ts s s' hs h hturn) hrun
  | case3 s e hturn => simp at hrun
  | case4 s hturn => simp at hrun

end Scanner

end HtmlLint
