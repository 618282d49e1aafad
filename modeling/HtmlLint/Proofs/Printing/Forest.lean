import HtmlLint.Document.Parsing
import HtmlLint.Proofs.Token.Markup
import HtmlLint.Proofs.Token.Order

/-!
# Forests and their printed form

A `Forest` is an ordered forest of elements and runs of text, written as the content of a document.
`print` writes it with a start tag and an end tag for every element, except that an element that
never has content gets no end tag outside of foreign content.  `Forest.WellSpelled` says which
names, attributes and texts can be written in this way, and then the tokens of the printed form are
those that were meant: `shapes` (`tokenize_print`).

The scanner goes through the printed form piece by piece.  `Scanner.Yields` says what one piece
gives, whatever follows it, and each piece leaves the scanner where the next one is expected.
-/

namespace HtmlLint

/-! ## Forests -/

/-- The nodes that stand side by side: none, or a first one and those after it. -/
inductive Forest where
  | nil
  /-- a run of text -/
  | text (content : String) (next : Forest)
  /-- an element with its attributes in order, as keys and values, and its content -/
  | element (tag : String) (attributes : List (String × String)) (content next : Forest)
  deriving DecidableEq, Inhabited

/-- What stands inside an element of this tag is foreign. -/
def Vocabulary.isForeignIn (v : Vocabulary) (inForeign : Bool) (tag : String) : Bool :=
  inForeign || (v.find? tag).any (·.foreign)

/-- An element of this tag has no content and no end tag. -/
def Vocabulary.isVoidIn (v : Vocabulary) (inForeign : Bool) (tag : String) : Bool :=
  !inForeign && (v.find? tag).any (·.void)

/-- The name of an element can be written in a tag and is read as it is: it has no capitals, and
what follows its start tag is read as markup. -/
structure IsElementName (name : String) : Prop where
  first : name.toList.head?.any Char.isAlpha = true
  chars : name.toList.all isNameChar = true
  small : name.toList.any Char.isUpper = false
  markup : name ∉ rawTextElements

/-- The attributes can be written with quotes and stay apart. -/
structure AreAttributes (attributes : List (String × String)) : Prop where
  keys : ∀ a ∈ attributes, a.1 ≠ "" ∧ a.1.toList.any endsAttrName = false
  values : ∀ a ∈ attributes, '"' ∉ a.2.toList
  distinct : attributes.Pairwise fun a b => Text.sameName a.1 b.1 = false

instance (name : String) : Decidable (IsElementName name) :=
  decidable_of_iff (_ ∧ _ ∧ _ ∧ _)
    ⟨fun ⟨hfirst, hchars, hsmall, hmarkup⟩ => ⟨hfirst, hchars, hsmall, hmarkup⟩,
      fun h => ⟨h.first, h.chars, h.small, h.markup⟩⟩

instance (attributes : List (String × String)) : Decidable (AreAttributes attributes) :=
  decidable_of_iff (_ ∧ _ ∧ _)
    ⟨fun ⟨hkeys, hvalues, hdistinct⟩ => ⟨hkeys, hvalues, hdistinct⟩,
      fun h => ⟨h.keys, h.values, h.distinct⟩⟩

namespace Forest

/-- The first node is a run of text. -/
def startsWithText : Forest → Bool
  | text .. => true
  | _ => false

/-- Names, attributes and texts can be written, and no text follows another. -/
def WellSpelled : Forest → Prop
  | nil => True
  | text content next =>
    content ≠ "" ∧ '<' ∉ content.toList ∧ next.startsWithText = false ∧ next.WellSpelled
  | element tag attributes content next =>
    IsElementName tag ∧ AreAttributes attributes ∧ content.WellSpelled ∧ next.WellSpelled

instance decidableWellSpelled : (forest : Forest) → Decidable forest.WellSpelled
  | nil => .isTrue trivial
  | text _ next =>
    have := decidableWellSpelled next
    inferInstanceAs (Decidable (_ ∧ _ ∧ _ ∧ _))
  | element _ _ content next =>
    have := decidableWellSpelled content
    have := decidableWellSpelled next
    inferInstanceAs (Decidable (_ ∧ _ ∧ _ ∧ _))

/-- The nodes can stand where they do: an element that never has content has none, and no element
ends the one around it, of which `around` is the model if it has one. -/
def Fits (v : Vocabulary) (around : Option ElementModel) (inForeign : Bool) : Forest → Prop
  | nil => True
  | text _ next => next.Fits v around inForeign
  | element tag _ content next =>
    (inForeign = false → around.any (·.isClosedBy tag) = false) ∧
      (v.isVoidIn inForeign tag = true → content = nil) ∧
      content.Fits v (v.find? tag) (v.isForeignIn inForeign tag) ∧ next.Fits v around inForeign

instance decidableFits (v : Vocabulary) :
    (forest : Forest) → (around : Option ElementModel) → (inForeign : Bool) →
      Decidable (forest.Fits v around inForeign)
  | nil, _, _ => .isTrue trivial
  | text _ next, around, inForeign => decidableFits v next around inForeign
  | element tag _ content next, around, inForeign =>
    have := decidableFits v content (v.find? tag) (v.isForeignIn inForeign tag)
    have := decidableFits v next around inForeign
    inferInstanceAs (Decidable (_ ∧ _ ∧ _ ∧ _))

/-! ## Printing -/

/-- An attribute with a blank before it: ` key="value"`. -/
def printAttribute (a : String × String) : List Char :=
  ' ' :: a.1.toList ++ '=' :: '"' :: a.2.toList ++ ['"']

/-- A start tag: `<tag key="value">`. -/
def printStartTag (tag : String) (attributes : List (String × String)) : List Char :=
  '<' :: tag.toList ++ attributes.flatMap printAttribute ++ ['>']

/-- An end tag: `</tag>`. -/
def printEndTag (tag : String) : List Char :=
  '<' :: '/' :: tag.toList ++ ['>']

/-- The nodes one after the other, each element with its tags around its content. -/
def print (v : Vocabulary) (inForeign : Bool) : Forest → List Char
  | nil => []
  | text content next => content.toList ++ next.print v inForeign
  | element tag attributes content next =>
    printStartTag tag attributes ++ content.print v (v.isForeignIn inForeign tag) ++
      (if v.isVoidIn inForeign tag then [] else printEndTag tag) ++ next.print v inForeign

/-! ## Tokens -/

/-- The tokens of an attribute. -/
def attributeShapes (a : String × String) : List (TokenKind × String) :=
  [(.attrName, a.1), (.attrValue, String.ofList ('"' :: a.2.toList ++ ['"']))]

/-- The tokens of a start tag. -/
def startTagShapes (tag : String) (attributes : List (String × String)) :
    List (TokenKind × String) :=
  (.tagOpen, String.ofList ('<' :: tag.toList)) :: attributes.flatMap attributeShapes ++
    [(.tagClose, ">")]

/-- The tokens of an end tag. -/
def endTagShapes (tag : String) : List (TokenKind × String) :=
  [(.tagOpen, String.ofList ('<' :: '/' :: tag.toList)), (.tagClose, ">")]

/-- The tokens that the printed form is meant to have. -/
def shapes (v : Vocabulary) (inForeign : Bool) : Forest → List (TokenKind × String)
  | nil => []
  | text content next => (.text, content) :: next.shapes v inForeign
  | element tag attributes content next =>
    startTagShapes tag attributes ++ content.shapes v (v.isForeignIn inForeign tag) ++
      (if v.isVoidIn inForeign tag then [] else endTagShapes tag) ++ next.shapes v inForeign

end Forest

/-! ## Names -/

/-- A name begins with a letter. -/
theorem IsElementName.exists_cons {name : String} (h : IsElementName name) :
    ∃ c cs, name.toList = c :: cs ∧ c.isAlpha = true := by
  have hfirst := h.first
  cases hname : name.toList with
  | nil => simp [hname] at hfirst
  | cons c cs => exact ⟨c, cs, rfl, by simpa [hname] using hfirst⟩

/-- A name has no capitals. -/
theorem IsElementName.foldCase_eq {name : String} (h : IsElementName name) :
    Text.foldCase name = name :=
  Text.foldCase_of_not_isUpper (by simpa using h.small)

/-! ## What a piece of a source gives -/

namespace Scanner

variable {s s' s'' : Scanner}

/-- From one state on the scanner yields these tokens and then what it yields from another state
on. -/
structure Yields (s : Scanner) (shapes : List (TokenKind × String)) (s' : Scanner) : Prop where
  tokens_eq : s.run.tokens.map Token.shape = shapes ++ s'.run.tokens.map Token.shape
  failure_eq : s.run.failure = s'.run.failure

namespace Yields

variable {first later : List (TokenKind × String)}

/-- Without a turn nothing is yielded. -/
private theorem refl (s : Scanner) : s.Yields [] s :=
  ⟨rfl, rfl⟩

/-- What is yielded in two parts is yielded as a whole. -/
private theorem trans (h : s.Yields first s') (h' : s'.Yields later s'') :
    s.Yields (first ++ later) s'' where
  tokens_eq := by rw [h.tokens_eq, h'.tokens_eq, List.append_assoc]
  failure_eq := h.failure_eq.trans h'.failure_eq

/-- A turn may yield nothing. -/
private theorem of_skip (h : s.turn = .skip s') : s.Yields [] s' where
  tokens_eq := by rw [run_of_skip h, List.nil_append]
  failure_eq := by rw [run_of_skip h]

/-- A turn may yield a token. -/
private theorem of_token {t : Token} (h : s.turn = .token t s') : s.Yields [t.shape] s' where
  tokens_eq := by rw [run_of_token h]; rfl
  failure_eq := by rw [run_of_token h]

end Yields

variable (p : Position) (rest : List Char) (tag : TagInProgress)

/-- A run of text without `<` gives one token, if it goes up to the end or to markup. -/
private theorem text_yields {cs rest : List Char} (hne : cs ≠ []) (hcs : '<' ∉ cs)
    (hrest : rest = [] ∨ startsMarkup rest = true) :
    Yields ⟨p, cs ++ rest, .text⟩ [(.text, String.ofList cs)] ⟨p.advance cs, rest, .text⟩ := by
  have hbreak : Text.breakAt startsMarkup (cs ++ rest) = (cs, rest) := breakAt_text hcs hrest
  have hmarkup : startsMarkup (cs ++ rest) = false := by
    obtain ⟨c, cs, rfl⟩ := List.exists_cons_of_ne_nil hne
    exact not_startsMarkup_of_ne (by rintro rfl; simp at hcs)
  have hturn : turn ⟨p, cs ++ rest, .text⟩ = emit ⟨p, cs ++ rest, .text⟩ .text cs rest .text := by
    have hemit := turnText_of_not_startsMarkup (s := ⟨p, cs ++ rest, .text⟩) (by simp [hne]) hmarkup
    rw [hbreak] at hemit
    exact hemit
  exact .of_token hturn

/-- A tag's beginning and name give one token, if the name does not go on. -/
private theorem tagOpen_yields {name : String} {x : Char} (hname : IsElementName name)
    (hx : isNameChar x = false) (closing : Bool) :
    let lead := if closing then ['<', '/'] else ['<']
    Yields ⟨p, lead ++ name.toList ++ x :: rest, .text⟩
      [(.tagOpen, String.ofList (lead ++ name.toList))]
      ⟨p.advance (lead ++ name.toList), x :: rest, .attributeName ⟨name, closing, p⟩⟩ := by
  intro lead
  obtain ⟨c, cs, hcons, hc⟩ := hname.exists_cons
  have htag : startsTag (lead ++ name.toList ++ x :: rest) = true := by
    rw [hcons]
    cases closing with
    | true => exact hc
    | false => exact startsTag_of_isAlpha hc
  have hchars : ∀ c ∈ name.toList, isNameChar c = true := List.all_eq_true.mp hname.chars
  -- the name ends at `x` and not before
  have htake : (name.toList ++ x :: rest).takeWhile isNameChar = name.toList := by
    rw [List.takeWhile_append_of_pos hchars, List.takeWhile_cons_of_neg (by simp [hx]),
      List.append_nil]
  have hdrop : (name.toList ++ x :: rest).dropWhile isNameChar = x :: rest := by
    rw [List.dropWhile_append_of_pos hchars, List.dropWhile_cons_of_neg (by simp [hx])]
  -- three turns: into the tag, over its beginning, and over the name
  have hskip : turn ⟨p, lead ++ name.toList ++ x :: rest, .text⟩ =
      .skip ⟨p, lead ++ name.toList ++ x :: rest, .tagOpen⟩ := turnText_of_startsTag htag
  have hlead : turn ⟨p, lead ++ name.toList ++ x :: rest, .tagOpen⟩ =
      .skip ⟨p, name.toList ++ x :: rest, .tagName lead⟩ := by
    rw [hcons, List.append_assoc]
    exact turnTagOpen_eq hc rfl
  have hturn : turn ⟨p, name.toList ++ x :: rest, .tagName lead⟩ =
      emit ⟨p, name.toList ++ x :: rest, .tagName lead⟩ .tagOpen (lead ++ name.toList) (x :: rest)
        (.attributeName ⟨name, closing, p⟩) := by
    simp only [turn, turnTagName, htake, hdrop]
    cases closing <;> simp [lead, Text.startsWith]
  exact .trans (.of_skip hskip) (.trans (.of_skip hlead) (.of_token hturn))

/-- The `>` of a tag gives one token. -/
private theorem tagClose_yields : Yields ⟨p, '>' :: rest, .attributeName tag⟩ [(.tagClose, ">")]
    ⟨p.advance ['>'], rest, afterTag tag⟩ :=
  .of_token (t := ⟨.tagClose, ">", .covering p ['>']⟩) rfl

/-- A key with its equals sign gives one token, if a quote comes next. -/
private theorem key_yields {key : String} (hne : key ≠ "")
    (hkey : ∀ c ∈ key.toList, endsAttrName c = false) :
    Yields ⟨p, ' ' :: key.toList ++ '=' :: '"' :: rest, .attributeName tag⟩ [(.attrName, key)]
      ⟨p.advance (' ' :: key.toList ++ ['=']), '"' :: rest, .attributeValue tag⟩ := by
  have hblank : Text.isBlank '"' = false := by decide
  have hspace : Text.isBlank ' ' = true := by decide
  have hequals : Text.isBlank '=' = false := by decide
  obtain ⟨c, cs, hcons⟩ := List.exists_cons_of_ne_nil (mt String.toList_eq_nil_iff.mp hne)
  have hc : endsAttrName c = false := hkey c (by simp [hcons])
  -- the one blank is skipped, since the key begins with none
  have hskip : skipBlanks ⟨p, ' ' :: key.toList ++ '=' :: '"' :: rest, .attributeName tag⟩ =
      ⟨p.advance [' '], key.toList ++ '=' :: '"' :: rest, .attributeName tag⟩ := by
    have hfirst : Text.isBlank c = false := by simp_all [endsAttrName]
    simp [skipBlanks, read, hcons, hspace, hfirst]
  -- the key ends at the equals sign and not before
  have htake :
      (key.toList ++ '=' :: '"' :: rest).takeWhile (fun c => !endsAttrName c) = key.toList := by
    rw [List.takeWhile_append_of_pos (by simpa using hkey), List.takeWhile_cons_of_neg (by decide),
      List.append_nil]
  have hdrop : (key.toList ++ '=' :: '"' :: rest).dropWhile (fun c => !endsAttrName c) =
      '=' :: '"' :: rest := by
    rw [List.dropWhile_append_of_pos (by simpa using hkey), List.dropWhile_cons_of_neg (by decide)]
  have hturn : turn ⟨p, ' ' :: key.toList ++ '=' :: '"' :: rest, .attributeName tag⟩ =
      .token ⟨.attrName, key, .covering (p.advance [' ']) key.toList⟩
        ⟨p.advance (' ' :: key.toList ++ ['=']), '"' :: rest, .attributeValue tag⟩ := by
    show turnAttributeName _ tag = _
    rw [turnAttributeName_of_key tag (by rw [hskip, hcons]; rfl) hc, hskip]
    simp only [readAttribute, htake, hdrop]
    simp [read, hequals, hblank, Text.startsWith, List.isPrefixOf]
  exact .of_token hturn

/-- A value in quotes gives one token. -/
private theorem value_yields {value : String} (hvalue : '"' ∉ value.toList) :
    Yields ⟨p, '"' :: value.toList ++ '"' :: rest, .attributeValue tag⟩
      [(.attrValue, String.ofList ('"' :: value.toList ++ ['"']))]
      ⟨p.advance ('"' :: value.toList ++ ['"']), rest, .attributeName tag⟩ := by
  have hblank : Text.isBlank '"' = false := by decide
  have hskip : skipBlanks ⟨p, '"' :: value.toList ++ '"' :: rest, .attributeValue tag⟩ =
      ⟨p, '"' :: value.toList ++ '"' :: rest, .attributeValue tag⟩ := by
    simp [skipBlanks, read, hblank]
  have hinside : ∀ c ∈ value.toList, (c != '"') = true := by
    intro c hc
    exact bne_iff_ne.mpr fun heq => hvalue (heq ▸ hc)
  -- the value ends at the quote and not before
  have htake : (value.toList ++ '"' :: rest).takeWhile (· != '"') = value.toList := by
    rw [List.takeWhile_append_of_pos hinside, List.takeWhile_cons_of_neg (by decide),
      List.append_nil]
  have hdrop : (value.toList ++ '"' :: rest).dropWhile (· != '"') = '"' :: rest := by
    rw [List.dropWhile_append_of_pos hinside, List.dropWhile_cons_of_neg (by decide)]
  have hturn : turn ⟨p, '"' :: value.toList ++ '"' :: rest, .attributeValue tag⟩ =
      emit ⟨p, '"' :: value.toList ++ '"' :: rest, .attributeValue tag⟩ .attrValue
        ('"' :: value.toList ++ ['"']) rest (.attributeName tag) := by
    simp only [turn, turnAttributeValue, hskip]
    simp [htake, hdrop]
  exact .of_token hturn

/-- An attribute with its value in quotes gives two tokens. -/
private theorem attribute_yields {a : String × String}
    (hkey : a.1 ≠ "" ∧ a.1.toList.any endsAttrName = false) (hvalue : '"' ∉ a.2.toList) :
    Yields ⟨p, Forest.printAttribute a ++ rest, .attributeName tag⟩ (Forest.attributeShapes a)
      ⟨p.advance (Forest.printAttribute a), rest, .attributeName tag⟩ := by
  have hkeyed := key_yields p (a.2.toList ++ '"' :: rest) tag hkey.1 (by simpa using hkey.2)
  have hvalued := value_yields (p.advance (' ' :: a.1.toList ++ ['='])) rest tag hvalue
  have h := hkeyed.trans hvalued
  rw [← Position.advance_append] at h
  simpa [Forest.printAttribute, Forest.attributeShapes] using h

/-- So do the attributes of a tag, one after the other. -/
private theorem attributes_yields {attributes : List (String × String)}
    (h : AreAttributes attributes) :
    Yields ⟨p, attributes.flatMap Forest.printAttribute ++ rest, .attributeName tag⟩
      (attributes.flatMap Forest.attributeShapes)
      ⟨p.advance (attributes.flatMap Forest.printAttribute), rest, .attributeName tag⟩ := by
  obtain ⟨hkeys, hvalues, -⟩ := h
  induction attributes generalizing p with
  | nil => exact .refl _
  | cons a attributes ih =>
    simp only [List.forall_mem_cons] at hkeys hvalues
    have hfirst :=
      attribute_yields p (attributes.flatMap Forest.printAttribute ++ rest) tag hkeys.1 hvalues.1
    have hlater := ih (p.advance (Forest.printAttribute a)) hkeys.2 hvalues.2
    have hall := hfirst.trans hlater
    rw [← List.append_assoc, ← Position.advance_append] at hall
    exact hall

/-- A start tag leads back to text. -/
private theorem startTag_yields {name : String} {attributes : List (String × String)}
    (hname : IsElementName name) (hattributes : AreAttributes attributes) :
    Yields ⟨p, Forest.printStartTag name attributes ++ rest, .text⟩
      (Forest.startTagShapes name attributes)
      ⟨p.advance (Forest.printStartTag name attributes), rest, .text⟩ := by
  -- the name ends where the first attribute or the end of the tag begins
  obtain ⟨x, after, hafter, hx⟩ : ∃ x after,
      attributes.flatMap Forest.printAttribute ++ '>' :: rest = x :: after ∧
      isNameChar x = false := by
    cases attributes with
    | nil => exact ⟨'>', rest, rfl, by decide⟩
    | cons a attributes => exact ⟨' ', _, rfl, by decide⟩
  have hmode : afterTag ⟨name, false, p⟩ = .text := by
    simp [afterTag, hname.foldCase_eq, hname.markup]
  have hopen := tagOpen_yields p after hname hx false
  rw [← hafter] at hopen
  have hall := hopen.trans ((attributes_yields _ _ _ hattributes).trans (tagClose_yields _ _ _))
  rw [hmode, ← Position.advance_append, ← Position.advance_append] at hall
  simpa [Forest.printStartTag, Forest.startTagShapes] using hall

/-- An end tag leads back to text. -/
private theorem endTag_yields {name : String} (hname : IsElementName name) :
    Yields ⟨p, Forest.printEndTag name ++ rest, .text⟩ (Forest.endTagShapes name)
      ⟨p.advance (Forest.printEndTag name), rest, .text⟩ := by
  have hopen := tagOpen_yields (x := '>') p rest hname (by decide) true
  have hall := hopen.trans (tagClose_yields _ _ _)
  rw [← Position.advance_append] at hall
  simpa [Forest.printEndTag, Forest.endTagShapes, afterTag] using hall

end Scanner

/-! ## The tokens of a printed forest -/

namespace Forest

variable {v : Vocabulary}

/-- Where a forest does not begin with text, its printed form begins with markup, or it is empty. -/
private theorem startsMarkup_print {forest : Forest} (h : forest.WellSpelled)
    (htext : forest.startsWithText = false) {rest : List Char}
    (hrest : rest = [] ∨ startsMarkup rest = true) (inForeign : Bool) :
    forest.print v inForeign ++ rest = [] ∨
    startsMarkup (forest.print v inForeign ++ rest) = true := by
  cases forest with
  | nil => exact hrest
  | text content next => cases htext
  | element tag attributes content next =>
    obtain ⟨c, cs, hcons, hc⟩ := h.1.exists_cons
    right
    simp only [print, printStartTag, hcons, List.cons_append, startsMarkup, startsTag_of_isAlpha hc,
      Bool.true_or]

/-- An end tag that is written is markup. -/
private theorem startsMarkup_printEndTag {tag : String} (h : IsElementName tag) (rest : List Char) :
    startsMarkup (printEndTag tag ++ rest) = true := by
  obtain ⟨c, cs, hcons, hc⟩ := h.exists_cons
  simp only [printEndTag, hcons, List.cons_append, startsMarkup, startsTag, hc, Bool.true_or]

/-- A printed forest gives its tokens and leads back to text, if it goes up to the end or to
markup. -/
private theorem print_yields {forest : Forest} (h : forest.WellSpelled)
    {around : Option ElementModel} {inForeign : Bool} (hfits : forest.Fits v around inForeign)
    {p : Position} {rest : List Char} (hrest : rest = [] ∨ startsMarkup rest = true) :
    Scanner.Yields ⟨p, forest.print v inForeign ++ rest, .text⟩ (forest.shapes v inForeign)
      ⟨p.advance (forest.print v inForeign), rest, .text⟩ := by
  induction forest generalizing around inForeign p rest with
  | nil => exact .refl _
  | text content next ih =>
    obtain ⟨hne, hcontent, hnext, hspelled⟩ := h
    have hmarkup := startsMarkup_print (v := v) hspelled hnext hrest inForeign
    have htext := Scanner.text_yields p (mt String.toList_eq_nil_iff.mp hne) hcontent hmarkup
    have hall := htext.trans (ih hspelled hfits hrest)
    rw [← List.append_assoc, ← Position.advance_append, String.ofList_toList] at hall
    exact hall
  | element tag attributes content next ihcontent ihnext =>
    obtain ⟨hname, hattributes, hspelled, hnextSpelled⟩ := h
    obtain ⟨-, hvoid, hcontent, hnext⟩ := hfits
    have hstart := Scanner.startTag_yields p (content.print v (v.isForeignIn inForeign tag) ++
      ((if v.isVoidIn inForeign tag then [] else printEndTag tag) ++
        (next.print v inForeign ++ rest)))
      hname hattributes
    simp only [print, shapes]
    cases hv : v.isVoidIn inForeign tag with
    | true =>
      -- there is no content, so that the next node comes right after the start tag
      rw [hvoid hv] at hstart ⊢
      simp only [hv, if_true, print, shapes, List.append_nil, List.nil_append] at hstart ⊢
      have hall := hstart.trans (ihnext hnextSpelled hnext hrest)
      rw [← List.append_assoc, ← Position.advance_append] at hall
      exact hall
    | false =>
      simp only [hv, Bool.false_eq_true, if_false] at hstart ⊢
      have hend := Scanner.endTag_yields
        ((p.advance (printStartTag tag attributes)).advance
          (content.print v (v.isForeignIn inForeign tag)))
        (next.print v inForeign ++ rest) hname
      have hinside := ihcontent hspelled hcontent (p := p.advance (printStartTag tag attributes))
        (.inr (startsMarkup_printEndTag hname (next.print v inForeign ++ rest)))
      have hall := ((hstart.trans hinside).trans hend).trans (ihnext hnextSpelled hnext hrest)
      simp only [← Position.advance_append, ← List.append_assoc] at hall
      exact hall

/-- The tokens of a printed forest are those that were meant. -/
theorem tokenize_print {forest : Forest} (h : forest.WellSpelled)
    (hfits : forest.Fits v none false) :
    (tokenize (String.ofList (forest.print v false))).failure = none ∧
      (tokenize (String.ofList (forest.print v false))).tokens.map Token.shape =
        forest.shapes v false := by
  have hyields := print_yields h hfits (p := .start) (.inl rfl)
  have hend : ∀ p : Position, Scanner.run ⟨p, [], .text⟩ = ⟨[], none⟩ := by
    intro p
    rw [Scanner.run]
    rfl
  rw [List.append_nil] at hyields
  rw [tokenize, String.toList_ofList, Scanner.ofSource, hyields.failure_eq, hyields.tokens_eq, hend]
  exact ⟨rfl, List.append_nil _⟩

end Forest

end HtmlLint
