import HtmlLint.Token.Scanner

/-! # Every turn brings the end nearer

`Scanner.weight` counts the characters left and, for turns that read nothing, the rank of the mode.
`Scanner.weight_turn_lt` says that every turn that goes on makes it smaller. -/

namespace HtmlLint

/-- How far a mode is from reading on: a turn that reads nothing leads to a mode of lower rank. -/
def ScanMode.rank : ScanMode → Nat
  | rawText _ => 6
  | text => 5
  | tagOpen => 4
  | tagName _ => 3
  | comment => 2
  | doctype => 2
  | attributeValue _ => 1
  | attributeName _ => 0
  | failed => 0

namespace Scanner

/-- What every turn that goes on makes smaller: the characters left, and then the rank. -/
def weight (s : Scanner) : Nat :=
  s.rest.length * 7 + s.mode.rank

/-- The rank of a mode is less than the weight of a character. -/
private theorem rank_le (m : ScanMode) : m.rank ≤ 6 := by
  cases m <;> simp [ScanMode.rank]

/-- Reading at least one character makes the weight smaller. -/
private theorem weight_lt_of_length {s t : Scanner} (h : t.rest.length < s.rest.length) :
    t.weight < s.weight := by
  have := rank_le t.mode
  simp only [weight]
  omega

/-- So does reading nothing on the way to a lower rank. -/
private theorem weight_lt_of_rank {s t : Scanner} (h : t.rest.length ≤ s.rest.length)
    (hr : t.mode.rank < s.mode.rank) : t.weight < s.weight := by
  simp only [weight]
  omega

@[simp] theorem next?_emit (s : Scanner) (kind : TokenKind) (taken rest : List Char)
    (mode : ScanMode) :
    Turn.next? (s.emit kind taken rest mode) = some (s.read taken rest mode) := rfl

@[simp] theorem next?_faultHere (s : Scanner) (f : ScanFault) :
    Turn.next? (s.faultHere f) = none := rfl

@[simp] theorem next?_unterminated (tag : TagInProgress) :
    Turn.next? (unterminated tag) = none := rfl

/-- Skipping blanks leaves no more than there was. -/
private theorem length_skipBlanks_le (s : Scanner) : s.skipBlanks.rest.length ≤ s.rest.length :=
  Text.length_dropWhile_le _ _

/-- What is left after blanks does not begin with one. -/
theorem isBlank_of_skipBlanks {s : Scanner} {c : Char} {cs : List Char}
    (h : s.skipBlanks.rest = c :: cs) :
    Text.isBlank c = false := by
  have hstop := List.head?_dropWhile_not Text.isBlank s.rest
  rw [show s.rest.dropWhile Text.isBlank = c :: cs from h] at hstop
  simpa using hstop

/-- Expecting something of a lower rank lowers the weight. -/
private theorem weight_expect {s t : Scanner} {m : ScanMode} (hr : m.rank < s.mode.rank)
    (h : (Turn.skip (s.expect m)).next? = some t) : t.weight < s.weight := by
  simp only [Turn.next?, Option.some.injEq] at h
  subst h
  exact weight_lt_of_rank (Nat.le_refl _) hr

/-- Taking a character lowers the weight, whatever is expected then. -/
private theorem weight_emit {s t : Scanner} {kind : TokenKind} {taken rest : List Char}
    {m : ScanMode} (hl : rest.length < s.rest.length)
    (h : (s.emit kind taken rest m).next? = some t) :
    t.weight < s.weight := by
  simp only [next?_emit, Option.some.injEq] at h
  subst h
  exact weight_lt_of_length hl

/-- Where no markup begins, there is text to read. -/
theorem length_text_lt {cs : List Char} (hne : cs ≠ []) (h : startsMarkup cs = false) :
    (Text.breakAt startsMarkup cs).2.length < cs.length := by
  obtain ⟨c, cs, rfl⟩ := List.exists_cons_of_ne_nil hne
  have := Text.length_breakAt startsMarkup cs
  simp only [Text.breakAt, h, Bool.false_eq_true, if_false, List.length_cons]
  omega

/-- A turn in text takes text, or expects markup. -/
private theorem weight_turnText {s t : Scanner} (hm : s.mode = .text)
    (h : s.turnText.next? = some t) :
    t.weight < s.weight := by
  simp only [turnText] at h
  split at h
  · simp [Turn.next?] at h
  rename_i hne
  split at h
  · exact weight_expect (by simp [hm, ScanMode.rank]) h
  rename_i h1
  split at h
  · exact weight_expect (by simp [hm, ScanMode.rank]) h
  split at h
  · exact weight_expect (by simp [hm, ScanMode.rank]) h
  rename_i h2
  split at h
  · exact weight_expect (by simp [hm, ScanMode.rank]) h
  rename_i h3
  refine weight_emit (length_text_lt (by simpa using hne) ?_) h
  simp_all [startsMarkup]

/-- A turn at the beginning of a tag takes that. -/
private theorem weight_turnTagOpen {s t : Scanner} (hm : s.mode = .tagOpen)
    (h : s.turnTagOpen.next? = some t) :
    t.weight < s.weight := by
  simp only [turnTagOpen, Turn.next?, Option.some.injEq] at h
  subst h
  exact weight_lt_of_rank (by simp) (by simp [hm, ScanMode.rank])

/-- A turn in the name of a tag goes on to its attributes. -/
private theorem weight_turnTagName {s t : Scanner} {lead : List Char} (hm : s.mode = .tagName lead)
    (h : (s.turnTagName lead).next? = some t) : t.weight < s.weight := by
  simp only [turnTagName, next?_emit, Option.some.injEq] at h
  subst h
  exact weight_lt_of_rank (Text.length_dropWhile_le _ _) (by simp [read, hm, ScanMode.rank])

/-- An attribute has at least one character. -/
private theorem weight_readAttribute {s t : Scanner} {tag : TagInProgress} {c : Char}
    {cs : List Char} (hs : s.rest = c :: cs) (hc : endsAttrName c = false)
    (h : (s.readAttribute tag).next? = some t) : t.weight < s.weight := by
  have h1 : (s.rest.dropWhile fun c => !endsAttrName c).length < s.rest.length := by
    rw [hs]
    exact Text.length_dropWhile_lt (by simp [hc])
  have h2 := Text.length_dropWhile_le Text.isBlank (s.rest.dropWhile fun c => !endsAttrName c)
  simp only [readAttribute] at h
  split at h
  · rename_i value hv
    simp only [Turn.next?, Option.some.injEq] at h
    subst h
    apply weight_lt_of_length
    rw [hv] at h2
    simp only [read, List.length_cons] at h2 ⊢
    omega
  · simp only [Turn.next?, Option.some.injEq] at h
    subst h
    exact weight_lt_of_length h1

/-- Skipping blanks does not raise the weight. -/
private theorem weight_skipBlanks_le (s : Scanner) : s.skipBlanks.weight ≤ s.weight := by
  have := length_skipBlanks_le s
  simp only [weight]
  have : s.skipBlanks.mode = s.mode := rfl
  rw [this]
  omega

/-- A turn before an attribute takes the end of the tag, a slash or an attribute. -/
private theorem weight_turnAttributeName {s t : Scanner} {tag : TagInProgress}
    (h : (s.turnAttributeName tag).next? = some t) : t.weight < s.weight := by
  refine Nat.lt_of_lt_of_le ?_ (weight_skipBlanks_le s)
  simp only [turnAttributeName] at h
  split at h
  · simp at h
  · rename_i rest hr
    exact weight_emit (by simp [hr]) h
  · rename_i rest hr
    exact weight_emit (by rw [hr]; simp only [List.length_cons]; omega) h
  · rename_i rest _ hr
    simp only [Turn.next?, Option.some.injEq] at h
    subst h
    exact weight_lt_of_length (by simp [read, hr])
  · rename_i c cs _ _ hr
    split at h
    · simp [Turn.next?] at h
    · have hblank := isBlank_of_skipBlanks hr
      refine weight_readAttribute hr ?_ h
      simp_all [endsAttrName]

/-- A turn before a value takes the value, or expects an attribute. -/
private theorem weight_turnAttributeValue {s t : Scanner} {tag : TagInProgress}
    (hm : s.mode = .attributeValue tag) (h : (s.turnAttributeValue tag).next? = some t) :
    t.weight < s.weight := by
  refine Nat.lt_of_lt_of_le ?_ (weight_skipBlanks_le s)
  simp only [turnAttributeValue] at h
  split at h
  · simp at h
  · rename_i c cs hr
    split at h
    · have := Text.length_dropWhile_le (· != c) cs
      split at h
      · simp at h
      · rename_i after ha
        refine weight_emit ?_ h
        rw [ha] at this
        simp only [List.length_cons] at this
        rw [hr]
        simp only [List.length_cons]
        omega
    · simp only [next?_emit, Option.some.injEq] at h
      subst h
      refine weight_lt_of_rank (Text.length_dropWhile_le _ _) ?_
      simp [skipBlanks, read, hm, ScanMode.rank]

/-- Reading up to a `>` takes that. -/
private theorem weight_upToAngle {s t : Scanner} {kind : TokenKind} {f : ScanFault}
    (h : (s.upToAngle kind f).next? = some t) : t.weight < s.weight := by
  have := Text.length_dropWhile_le (· != '>') s.rest
  simp only [upToAngle] at h
  split at h
  · simp at h
  · rename_i after ha
    rw [ha] at this
    simp only [List.length_cons] at this
    exact weight_emit (by omega) h

/-- A turn in a comment takes its end. -/
private theorem weight_turnComment {s t : Scanner} (h : s.turnComment.next? = some t) :
    t.weight < s.weight := by
  simp only [turnComment] at h
  split at h
  · split at h
    · simp at h
    · rename_i hb
      refine weight_emit ?_ h
      have := Text.length_breakAt (Text.startsWith · "-->") (s.rest.drop 4)
      have hb : 0 < (Text.breakAt (Text.startsWith · "-->") (s.rest.drop 4)).2.length := by
        simpa [List.length_pos_iff] using hb
      simp only [List.length_drop] at this ⊢
      omega
  · exact weight_upToAngle h

/-- A turn in raw text takes text, or expects the end tag. -/
private theorem weight_turnRawText {s t : Scanner} {name : String} (hm : s.mode = .rawText name)
    (h : (s.turnRawText name).next? = some t) : t.weight < s.weight := by
  simp only [turnRawText] at h
  split at h
  · exact weight_expect (by simp [hm, ScanMode.rank]) h
  · rename_i hb
    refine weight_emit ?_ h
    have := Text.length_breakAt (startsEndTagOf name) s.rest
    have hb : 0 < (Text.breakAt (startsEndTagOf name) s.rest).1.length := by
      simpa [List.length_pos_iff] using hb
    omega

/-- Every turn that goes on makes the weight smaller. -/
theorem weight_turn_lt {s t : Scanner} (h : s.turn.next? = some t) : t.weight < s.weight := by
  simp only [turn] at h
  split at h
  · exact weight_turnText ‹_› h
  · exact weight_turnTagOpen ‹_› h
  · exact weight_turnTagName ‹_› h
  · exact weight_turnAttributeName h
  · exact weight_turnAttributeValue ‹_› h
  · exact weight_turnComment h
  · exact weight_upToAngle h
  · exact weight_turnRawText ‹_› h
  · simp [Turn.next?] at h

/-- Every turn that yields nothing lowers the weight. -/
theorem weight_of_skip {s t : Scanner} (h : s.turn = .skip t) : t.weight < s.weight :=
  weight_turn_lt (by rw [h]; rfl)

/-- So does every turn that yields a token. -/
theorem weight_of_token {s t : Scanner} {k : Token} (h : s.turn = .token k t) :
    t.weight < s.weight :=
  weight_turn_lt (by rw [h]; rfl)

end Scanner

end HtmlLint
