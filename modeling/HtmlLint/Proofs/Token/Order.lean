import HtmlLint.Proofs.List
import HtmlLint.Token.Scan

/-!
# Tokens in the order of the source

Every turn of the scanner reads on from where the turn before it stopped, and the token that it
yields is a slice of what it reads; what else it reads is a gap inside a tag.  What stands inside a
tag is never text, a comment or a doctype.  `Scanner.turn_follows` says this of one turn, whatever
the state of the scanner.
-/

namespace HtmlLint

/-- What a token is without its place. -/
def Token.shape (t : Token) : TokenKind × String :=
  (t.kind, t.text)

/-- Tokens of this kind stand between the name of a tag and the end of the tag. -/
def TokenKind.inTag : TokenKind → Bool
  | attrName | attrValue | tagClose => true
  | tagOpen | text | comment | doctype => false

/-- After a token of this kind the source goes on inside a tag. -/
def TokenKind.leadsIntoTag : TokenKind → Bool
  | tagOpen | attrName | attrValue => true
  | tagClose | text | comment | doctype => false

/-- The scanner is between the name of a tag and the end of the tag. -/
def ScanMode.inTag : ScanMode → Bool
  | attributeName _ | attributeValue _ => true
  | text | tagOpen | tagName _ | comment | doctype | rawText _ | failed => false

/-- What has been read of the next token. -/
def ScanMode.lead : ScanMode → List Char
  | tagName lead => lead
  | text | tagOpen | attributeName _ | attributeValue _ | comment | doctype | rawText _
    | failed => []

/-- The character may stand between the tokens of a tag without belonging to any of them. -/
def isFiller (c : Char) : Bool :=
  Text.isBlank c || c == '/' || c == '='

/-- The characters are a gap between tokens: inside a tag there are only fillers, and outside of
tags nothing at all. -/
def IsGap (inTag : Bool) (cs : List Char) : Prop :=
  ∀ c ∈ cs, inTag = true ∧ isFiller c = true

/-- Between two tokens there may be nothing. -/
private theorem IsGap.nil (inTag : Bool) : IsGap inTag [] := by
  simp [IsGap]

/-- Two gaps next to each other are one. -/
theorem IsGap.append {inTag : Bool} {cs cs' : List Char} (h : IsGap inTag cs)
    (h' : IsGap inTag cs') :
    IsGap inTag (cs ++ cs') := fun c hc => (List.mem_append.mp hc).elim (h c) (h' c)

/-- Blanks inside a tag are a gap. -/
private theorem IsGap.takeWhile_isBlank (cs : List Char) :
    IsGap true (cs.takeWhile Text.isBlank) := fun c hc =>
  ⟨rfl, by simp [isFiller, List.all_eq_true.mp List.all_takeWhile c hc]⟩

namespace Scanner

/-- The source from the scanner's position on: what has been read of the next token, and what is
left. -/
def ahead (s : Scanner) : List Char :=
  s.mode.lead ++ s.rest

/-- Where nothing has been read of the next token, what is ahead is what is left. -/
theorem ahead_eq {s : Scanner} (h : s.mode.lead = []) : s.ahead = s.rest := by
  rw [ahead, h, List.nil_append]

/-- Between the positions of two states there is `taken`, whatever is expected there. -/
def Reads (s : Scanner) (taken : List Char) (s' : Scanner) : Prop :=
  s.ahead = taken ++ s'.ahead ∧ s'.position = s.position.advance taken

/-- What is read in two parts is read as a whole. -/
private theorem Reads.trans {s s' s'' : Scanner} {a b : List Char} (h : s.Reads a s')
    (h' : s'.Reads b s'') :
    s.Reads (a ++ b) s'' := by
  refine ⟨?_, ?_⟩
  · rw [h.1, h'.1, List.append_assoc]
  · rw [h'.2, h.2, Position.advance_append]

end Scanner

/-- The turn goes on from a state of the scanner.  A token is a slice of what the turn reads; the
rest of it is a gap. -/
def Turn.Follows (s : Scanner) : Turn → Prop
  | .token t s' =>
    ∃ before after, s.Reads (before ++ t.text.toList ++ after) s' ∧
      t.location = .covering (s.position.advance before) t.text.toList ∧
      t.kind.inTag = s.mode.inTag ∧ s'.mode.inTag = t.kind.leadsIntoTag ∧
      IsGap s.mode.inTag before ∧ IsGap s'.mode.inTag after
  | .skip s' => ∃ taken, s.Reads taken s' ∧ s'.mode.inTag = s.mode.inTag ∧ IsGap s.mode.inTag taken
  | .fault _ => True
  | .finished => True

namespace Scanner

variable {s s' : Scanner}

/-- What follows a later state follows the earlier one, if nothing was yielded between them. -/
private theorem Reads.follows {taken : List Char} {turn : Turn} (h : s.Reads taken s')
    (hmode : s'.mode.inTag = s.mode.inTag) (hgap : IsGap s.mode.inTag taken)
    (hturn : turn.Follows s') :
    turn.Follows s := by
  cases turn with
  | token t next =>
    obtain ⟨before, after, hreads, hlocation, hin, hnext, hbefore, hafter⟩ := hturn
    rw [hmode] at hbefore
    refine ⟨taken ++ before, after, ?_, ?_, hin.trans hmode, hnext, hgap.append hbefore, hafter⟩
    · simpa only [List.append_assoc] using h.trans hreads
    · rw [hlocation, h.2, Position.advance_append]
  | skip next =>
    obtain ⟨more, hreads, hnext, hmore⟩ := hturn
    rw [hmode] at hmore
    exact ⟨taken ++ more, h.trans hreads, hnext.trans hmode, hgap.append hmore⟩
  | fault e => trivial
  | finished => trivial

/-- The scanner may come to expect something else without reading. -/
private theorem expect_follows {mode : ScanMode} (hlead : mode.lead = s.mode.lead)
    (hmode : mode.inTag = s.mode.inTag) : (Turn.skip (s.expect mode)).Follows s := by
  refine ⟨[], ⟨?_, rfl⟩, hmode, .nil _⟩
  show s.mode.lead ++ s.rest = [] ++ (mode.lead ++ s.rest)
  rw [hlead, List.nil_append]

/-- A token that takes the beginning of what is ahead follows the state of the scanner. -/
private theorem emit_follows_of_ahead {kind : TokenKind} {taken rest : List Char} {mode : ScanMode}
    (hahead : s.ahead = taken ++ (mode.lead ++ rest)) (hin : kind.inTag = s.mode.inTag)
    (hnext : mode.inTag = kind.leadsIntoTag) : (s.emit kind taken rest mode).Follows s := by
  refine ⟨[], [], ⟨?_, ?_⟩, ?_, hin, hnext, .nil _, .nil _⟩
  · simpa [ahead, read] using hahead
  · simp [read]
  · simp

/-- In particular if nothing has been read of the token before. -/
private theorem emit_follows {kind : TokenKind} {taken rest : List Char} {mode : ScanMode}
    (hlead : s.mode.lead = []) (hnone : mode.lead = []) (hrest : s.rest = taken ++ rest)
    (hin : kind.inTag = s.mode.inTag) (hnext : mode.inTag = kind.leadsIntoTag) :
    (s.emit kind taken rest mode).Follows s := by
  refine emit_follows_of_ahead ?_ hin hnext
  rw [ahead_eq hlead, hnone, hrest, List.nil_append]

/-- Skipping blanks reads them. -/
theorem skipBlanks_reads (h : s.mode.lead = []) :
    s.Reads (s.rest.takeWhile Text.isBlank) s.skipBlanks := by
  refine ⟨?_, rfl⟩
  rw [ahead_eq h, ahead_eq (s := s.skipBlanks) h]
  exact List.takeWhile_append_dropWhile.symm

/-! ## What each turn reads -/

/-- A turn in text reads text, or finds that markup begins. -/
private theorem turnText_follows (hm : s.mode = .text) : s.turnText.Follows s := by
  have hmode : s.mode.inTag = false := by rw [hm]; rfl
  have hlead : s.mode.lead = [] := by rw [hm]; rfl
  simp only [turnText]
  split
  · trivial
  split
  · exact expect_follows hlead.symm hmode.symm
  split
  · exact expect_follows hlead.symm hmode.symm
  split
  · exact expect_follows hlead.symm hmode.symm
  split
  · exact expect_follows hlead.symm hmode.symm
  · exact emit_follows hlead rfl (Text.breakAt_append _ _).symm hmode.symm rfl

/-- What is read of a tag before its name belongs to the token that the name makes. -/
private theorem turnTagOpen_follows (hm : s.mode = .tagOpen) : s.turnTagOpen.Follows s := by
  refine ⟨[], ⟨?_, rfl⟩, by rw [hm]; rfl, .nil _⟩
  rw [ahead_eq (by rw [hm]; rfl)]
  exact (List.take_append_drop _ _).symm

/-- A turn in the name of a tag reads the rest of the beginning of the tag. -/
private theorem turnTagName_follows {lead : List Char} (hm : s.mode = .tagName lead) :
    (s.turnTagName lead).Follows s := by
  refine emit_follows_of_ahead ?_ (by rw [hm]; rfl) rfl
  rw [ahead, hm, List.append_assoc]
  exact congrArg (lead ++ ·) List.takeWhile_append_dropWhile.symm

/-- Reading an attribute reads its name; blanks and the `=` after it are a gap. -/
private theorem readAttribute_follows (tag : TagInProgress) (hlead : s.mode.lead = [])
    (hin : s.mode.inTag = true) :
    (s.readAttribute tag).Follows s := by
  have hname := List.takeWhile_append_dropWhile (p := fun c => !endsAttrName c) (l := s.rest)
  have hahead := ahead_eq hlead
  simp only [readAttribute]
  split
  · -- an equals sign follows, which belongs to no token
    rename_i value hvalue
    have hgap := List.takeWhile_append_dropWhile (p := Text.isBlank)
      (l := s.rest.dropWhile fun c => !endsAttrName c)
    rw [hvalue] at hgap
    have hmode : ∀ dangling : Bool,
        (if dangling then ScanMode.attributeName tag else .attributeValue tag).inTag = true := by
      intro dangling
      cases dangling <;> rfl
    have hnone : ∀ dangling : Bool,
        (if dangling then ScanMode.attributeName tag else .attributeValue tag).lead = [] := by
      intro dangling
      cases dangling <;> rfl
    refine ⟨[], (s.rest.dropWhile fun c => !endsAttrName c).takeWhile Text.isBlank ++ ['='],
      ⟨?_, ?_⟩, ?_, hin.symm, ?_, .nil _, ?_⟩
    · simp only [String.toList_ofList, List.nil_append, read, List.append_assoc, List.cons_append]
      rw [hahead, ahead_eq (hnone _), hgap, hname]
    · simp only [String.toList_ofList, List.nil_append, read, List.append_assoc]
    · simp
    · exact hmode _
    · show IsGap (ite _ _ _ : ScanMode).inTag _
      rw [hmode]
      exact (IsGap.takeWhile_isBlank _).append (by simp [IsGap, isFiller])
  · refine ⟨[], [], ⟨?_, ?_⟩, ?_, hin.symm, rfl, .nil _, .nil _⟩
    · rw [hahead, ahead_eq (s := s.read _ _ (.attributeName tag)) rfl]
      simp [read]
    · simp [read]
    · simp

/-- A turn before an attribute reads the end of the tag or the attribute, after a gap. -/
private theorem turnAttributeName_follows {tag : TagInProgress} (hm : s.mode = .attributeName tag) :
    (s.turnAttributeName tag).Follows s := by
  have hin : s.skipBlanks.mode.inTag = true := by
    show s.mode.inTag = true
    rw [hm]; rfl
  have hlead : s.mode.lead = [] := by rw [hm]; rfl
  have hblanks : s.skipBlanks.mode.lead = [] := hlead
  refine (skipBlanks_reads hlead).follows rfl (hin ▸ IsGap.takeWhile_isBlank _) ?_
  simp only [turnAttributeName]
  split
  · trivial
  · rename_i rest hrest
    refine emit_follows hblanks ?_ hrest hin.symm ?_
    · simp only [afterTag]
      split <;> rfl
    · simp only [afterTag]
      split <;> rfl
  · rename_i rest hrest
    exact emit_follows hblanks rfl hrest hin.symm rfl
  · rename_i rest _ hrest
    -- a lone slash belongs to no token
    exact ⟨['/'], ⟨(ahead_eq hblanks).trans hrest, rfl⟩, hin.symm, by simp [IsGap, hin, isFiller]⟩
  · split
    · trivial
    · exact readAttribute_follows tag hblanks hin

/-- A turn before a value reads the value, after a gap. -/
private theorem turnAttributeValue_follows {tag : TagInProgress}
    (hm : s.mode = .attributeValue tag) :
    (s.turnAttributeValue tag).Follows s := by
  have hin : s.skipBlanks.mode.inTag = true := by
    show s.mode.inTag = true
    rw [hm]; rfl
  have hlead : s.mode.lead = [] := by rw [hm]; rfl
  have hblanks : s.skipBlanks.mode.lead = [] := hlead
  refine (skipBlanks_reads hlead).follows rfl (hin ▸ IsGap.takeWhile_isBlank _) ?_
  simp only [turnAttributeValue]
  split
  · trivial
  · rename_i c cs hrest
    split
    · -- a quoted value goes up to the next quote of the same kind
      split
      · trivial
      · rename_i after hafter
        refine emit_follows hblanks rfl ?_ hin.symm rfl
        rw [hrest, List.cons_append, List.cons_append, List.append_assoc, List.singleton_append]
        exact congrArg (c :: ·) (eq_of_dropWhile_ne hafter)
    · exact emit_follows hblanks rfl List.takeWhile_append_dropWhile.symm hin.symm rfl

/-- Reading up to a `>` reads one token. -/
private theorem upToAngle_follows {kind : TokenKind} {fault : ScanFault} (hlead : s.mode.lead = [])
    (hin : kind.inTag = s.mode.inTag) (hout : kind.leadsIntoTag = false) :
    (s.upToAngle kind fault).Follows s := by
  simp only [upToAngle]
  split
  · trivial
  · rename_i after hafter
    refine emit_follows hlead rfl ?_ hin hout.symm
    rw [List.append_assoc, List.singleton_append]
    exact eq_of_dropWhile_ne hafter

/-- A turn in a comment reads the comment. -/
private theorem turnComment_follows (hm : s.mode = .comment) : s.turnComment.Follows s := by
  have hmode : s.mode.inTag = false := by rw [hm]; rfl
  have hlead : s.mode.lead = [] := by rw [hm]; rfl
  simp only [turnComment]
  split
  · split
    · trivial
    · refine emit_follows hlead rfl ?_ hmode.symm rfl
      rw [List.append_assoc, List.append_assoc, List.take_append_drop, Text.breakAt_append,
        List.take_append_drop]
  · exact upToAngle_follows hlead hmode.symm rfl

/-- A turn in raw text reads it up to the end tag, or finds that the end tag begins. -/
private theorem turnRawText_follows {name : String} (hm : s.mode = .rawText name) :
    (s.turnRawText name).Follows s := by
  have hmode : s.mode.inTag = false := by rw [hm]; rfl
  have hlead : s.mode.lead = [] := by rw [hm]; rfl
  simp only [turnRawText]
  split
  · exact expect_follows hlead.symm hmode.symm
  · exact emit_follows hlead rfl (Text.breakAt_append _ _).symm hmode.symm rfl

/-- Every turn goes on from the state that it starts in. -/
theorem turn_follows (s : Scanner) : s.turn.Follows s := by
  simp only [turn]
  split
  · exact turnText_follows ‹_›
  · exact turnTagOpen_follows ‹_›
  · exact turnTagName_follows ‹_›
  · exact turnAttributeName_follows ‹_›
  · exact turnAttributeValue_follows ‹_›
  · exact turnComment_follows ‹_›
  · rename_i hm
    exact upToAngle_follows (by rw [hm]; rfl) (by rw [hm]; rfl) rfl
  · exact turnRawText_follows ‹_›
  · trivial

/-- A turn that yields a token goes on. -/
theorem next?_of_token {t : Token} (h : s.turn = .token t s') : s.turn.next? = some s' := by
  rw [h]
  rfl

/-- A turn that passes over something goes on. -/
theorem next?_of_skip (h : s.turn = .skip s') : s.turn.next? = some s' := by
  rw [h]
  rfl

/-- The state that a turn leads to is reached by reading. -/
theorem exists_reads (h : s.turn.next? = some s') : ∃ taken, s.Reads taken s' := by
  have hfollows := s.turn_follows
  cases hturn : s.turn with
  | token t next =>
    rw [hturn] at h hfollows
    cases h
    obtain ⟨before, after, hreads, -⟩ := hfollows
    exact ⟨_, hreads⟩
  | skip next =>
    rw [hturn] at h hfollows
    cases h
    obtain ⟨taken, hreads, -⟩ := hfollows
    exact ⟨taken, hreads⟩
  | fault e => rw [hturn] at h; cases h
  | finished => rw [hturn] at h; cases h

end Scanner

end HtmlLint
