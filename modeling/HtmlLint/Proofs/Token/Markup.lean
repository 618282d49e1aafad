import HtmlLint.Proofs.Text
import HtmlLint.Token.Scanner

/-!
# Where markup begins

How the scanner tells text from tags, comments and doctypes: what `startsTag`, `startsMarkup` and
`startsEndTagOf` say of a text, how little of the text they look at, and which turn of the scanner
follows from them.
-/

namespace HtmlLint

/-! ## Beginnings -/

/-- Where `<!` does not begin, no comment and no doctype does. -/
private theorem startsWith_of_not_bang {cs : List Char} (h : Text.startsWith cs "<!" = false) :
    Text.startsWith cs "<!--" = false ∧ Text.startsWithFolded cs "<!doctype" = false := by
  constructor
  · refine Bool.eq_false_iff.mpr fun hcomment => Bool.eq_false_iff.mp h ?_
    simp only [Text.startsWith, List.isPrefixOf_iff_prefix] at hcomment ⊢
    exact List.IsPrefix.trans ⟨['-', '-'], rfl⟩ hcomment
  · refine Bool.eq_false_iff.mpr fun hdoctype => Bool.eq_false_iff.mp h ?_
    match cs with
    | [] => cases hdoctype
    | [c] => simp [Text.startsWithFolded] at hdoctype
    | c :: c' :: cs =>
      -- the first two characters of a doctype are no letters
      have hall : c.toLower :: c'.toLower :: (cs.take 7).map Char.toLower =
          '<' :: '!' :: "doctype".toList :=
        beq_iff_eq.mp hdoctype
      simp only [List.cons.injEq] at hall
      rw [Text.eq_of_toLower_eq hall.1 (by decide), Text.eq_of_toLower_eq hall.2.1 (by decide)]
      rfl

/-- Where there is no `<`, no markup begins. -/
theorem not_startsMarkup_of_ne {c : Char} {cs : List Char} (h : c ≠ '<') :
    startsMarkup (c :: cs) = false := by
  have htag : startsTag (c :: cs) = false := by
    unfold startsTag
    split <;> simp_all
  simp [startsMarkup, htag, Text.startsWith, List.isPrefixOf, h.symm]

/-- A letter after `<` begins a tag. -/
theorem startsTag_of_isAlpha {c : Char} {cs : List Char} (h : c.isAlpha = true) :
    startsTag ('<' :: c :: cs) = true := by
  unfold startsTag
  split <;> simp_all

/-- A tag begins with `<` or `</` and a letter. -/
theorem exists_of_startsTag {cs : List Char} (h : startsTag cs = true) :
    ∃ (closing : Bool) (c : Char) (rest : List Char), c.isAlpha = true ∧
      cs = (if closing then ['<', '/'] else ['<']) ++ c :: rest := by
  fun_cases startsTag cs with
  | case1 c rest => exact ⟨true, c, rest, by simpa [startsTag] using h, rfl⟩
  | case2 c rest hslash =>
    refine ⟨false, c, rest, ?_, rfl⟩
    unfold startsTag at h
    split at h <;> simp_all
  | case3 hend hstart =>
    unfold startsTag at h
    split at h <;> simp_all

/-- A text without `<` is not cut. -/
theorem breakAt_text {cs rest : List Char} (hcs : '<' ∉ cs)
    (hrest : rest = [] ∨ startsMarkup rest = true) :
    Text.breakAt startsMarkup (cs ++ rest) = (cs, rest) := by
  refine Text.breakAt_eq hrest fun x c y hsplit => not_startsMarkup_of_ne ?_
  rintro rfl
  exact hcs (by simp [hsplit])

/-- Where a tag begins, no comment and no doctype does. -/
private theorem startsWith_of_startsTag {cs : List Char} (h : startsTag cs = true) :
    Text.startsWith cs "<!" = false ∧ Text.startsWith cs "<?" = false := by
  fun_cases startsTag cs with
  | case1 c cs => simp [Text.startsWith, List.isPrefixOf]
  | case2 c cs hslash =>
    have hc : c ≠ '!' ∧ c ≠ '?' := by
      constructor <;> rintro rfl <;> simp [startsTag] at h
    simp [Text.startsWith, List.isPrefixOf, hc.1.symm, hc.2.symm]
  | case3 => simp [startsTag] at h

/-- Markup begins with `<`. -/
theorem exists_of_startsMarkup {cs : List Char} (h : startsMarkup cs = true) :
    ∃ rest, cs = '<' :: rest := by
  cases cs with
  | nil => cases h
  | cons c cs =>
    by_cases hc : c = '<'
    · exact ⟨cs, by rw [hc]⟩
    · rw [not_startsMarkup_of_ne hc] at h
      cases h

/-- What an end tag of a name begins with: a spelling of the name, and then something that ends
it. -/
theorem exists_of_startsEndTagOf {name : String} {cs : List Char}
    (h : startsEndTagOf name cs = true) :
    ∃ spelling rest, cs = '<' :: '/' :: spelling ++ rest ∧
      spelling.map Char.toLower = name.toList.map Char.toLower ∧
      Text.Stops (fun c => !(Text.isBlank c || c == '>' || c == '/')) rest := by
  simp only [startsEndTagOf, Bool.and_eq_true] at h
  obtain ⟨⟨hlead, hname⟩, hend⟩ := h
  obtain ⟨rest, rfl⟩ := List.isPrefixOf_iff_prefix.mp hlead
  have hspelling : (rest.take name.toList.length).map Char.toLower =
      name.toList.map Char.toLower := by
    simpa [Text.startsWithFolded] using hname
  refine ⟨rest.take name.toList.length, rest.drop name.toList.length, by simp, hspelling, ?_⟩
  have hdrop : ("</".toList ++ rest).drop (2 + name.toList.length) =
      rest.drop name.toList.length := by
    rw [← List.drop_drop]
    rfl
  rw [hdrop] at hend
  cases hrest : rest.drop name.toList.length with
  | nil => exact .nil
  | cons c later =>
    rw [hrest] at hend
    exact .cons (congrArg not hend)

/-- The end tag of an element is recognized in every spelling of the name. -/
theorem startsEndTagOf_of_spelling {name : String} {spelling rest : List Char}
    (hspelling : spelling.map Char.toLower = name.toList.map Char.toLower)
    (hrest : Text.Stops (fun c => !(Text.isBlank c || c == '>' || c == '/')) rest) :
    startsEndTagOf name ('<' :: '/' :: spelling ++ rest) = true := by
  have hlength : name.toList.length = spelling.length :=
    by simpa using congrArg List.length hspelling.symm
  have hlead : Text.startsWith ('<' :: '/' :: (spelling ++ rest)) "</" = true :=
    by simp [Text.startsWith]
  have hname : Text.startsWithFolded (spelling ++ rest) name = true := by
    simp [Text.startsWithFolded, hlength, hspelling]
  have hdrop : ('<' :: '/' :: (spelling ++ rest)).drop (2 + name.toList.length) = rest := by
    rw [← List.drop_drop, List.drop_succ_cons, List.drop_succ_cons, List.drop_zero, hlength,
      List.drop_left]
  simp only [startsEndTagOf, List.cons_append, hlead, List.drop_succ_cons, List.drop_zero, hname,
    Bool.true_and, hdrop]
  cases rest with
  | nil => rfl
  | cons c rest => simpa only [Bool.not_eq_false'] using hrest c rfl

/-! ## Looking ahead -/

/-- Whether a comment begins is known from the part up to a `>`. -/
theorem startsWith_comment_congr (body x y : List Char) :
    Text.startsWith (body ++ '>' :: x) "<!--" = Text.startsWith (body ++ '>' :: y) "<!--" := by
  have hsame :=
    Text.startsWith_append_congr "<!--" (c := '>') (a := body ++ ['>']) (by simp) (by decide) x y
  simpa only [List.append_assoc, List.singleton_append] using hsame

/-- Three characters tell whether a tag begins. -/
private theorem startsTag_congr (c d e : Char) (x y : List Char) :
    startsTag (c :: d :: e :: x) = startsTag (c :: d :: e :: y) := by
  by_cases hc : c = '<'
  · subst hc
    by_cases hd : d = '/'
    · subst hd
      rfl
    · simp [startsTag, hd]
  · simp [startsTag, hc]

/-- Whether markup begins is decided by three characters. -/
private theorem startsMarkup_congr (c d e : Char) (x y : List Char) :
    startsMarkup (c :: d :: e :: x) = startsMarkup (c :: d :: e :: y) := by
  unfold startsMarkup
  rw [startsTag_congr c d e x y]
  simp [Text.startsWith, List.isPrefixOf]

/-- Whether a tag begins is known from a part with a `>`. -/
theorem startsTag_append_congr {a : List Char} (h : '>' ∈ a) (x y : List Char) :
    startsTag (a ++ x) = startsTag (a ++ y) := by
  match a with
  | [] => cases h
  | [c] =>
    obtain rfl : '>' = c := by simpa using h
    simp [startsTag]
  | [c, d] =>
    have hcd : '>' = c ∨ '>' = d := by simpa using h
    obtain rfl | rfl := hcd
    · simp [startsTag]
    · by_cases hc : c = '<'
      · subst hc
        simp [startsTag]
      · simp [startsTag, hc]
  | c :: d :: e :: a => exact startsTag_congr c d e (a ++ x) (a ++ y)

/-- Whether markup begins is known from a part with a `>`. -/
theorem startsMarkup_append_congr {a : List Char} (h : '>' ∈ a) (x y : List Char) :
    startsMarkup (a ++ x) = startsMarkup (a ++ y) := by
  unfold startsMarkup
  rw [startsTag_append_congr h x y, Text.startsWith_append_congr "<!" h (by decide) x y,
    Text.startsWith_append_congr "<?" h (by decide) x y]

/-- Whether markup begins before a `<` is known without what comes after that. -/
theorem startsMarkup_lt_congr (c : Char) (a x y : List Char) :
    startsMarkup (c :: a ++ '<' :: x) = startsMarkup (c :: a ++ '<' :: y) := by
  match a with
  | [] =>
    have hno : ∀ z : List Char, startsMarkup (c :: '<' :: z) = false := by
      intro z
      by_cases hc : c = '<'
      · subst hc
        simp [startsMarkup, startsTag, Text.startsWith, List.isPrefixOf]
      · exact not_startsMarkup_of_ne hc
    exact (hno x).trans (hno y).symm
  | [d] => exact startsMarkup_congr c d '<' x y
  | d :: e :: a => exact startsMarkup_congr c d e _ _

/-- Whether an end tag begins is known from the characters of its name and one more. -/
theorem startsEndTagOf_append_congr {name : String} {a : List Char}
    (h : name.toList.length + 3 ≤ a.length) (x y : List Char) :
    startsEndTagOf name (a ++ x) = startsEndTagOf name (a ++ y) := by
  obtain ⟨c, d, rest, rfl⟩ : ∃ c d rest, a = c :: d :: rest := by
    match a with
    | [] => simp at h
    | [c] => simp at h
    | c :: d :: rest => exact ⟨c, d, rest, rfl⟩
  simp only [List.length_cons] at h
  have hname : ∀ z : List Char, (rest ++ z).take name.toList.length =
      rest.take name.toList.length :=
    fun z => List.take_append_of_le_length (by omega)
  -- the character after the name is one of the known ones
  obtain ⟨e, later, hlater⟩ : ∃ e later, rest.drop name.toList.length = e :: later :=
    List.exists_cons_of_ne_nil (mt List.drop_eq_nil_iff.mp (by omega))
  have hafter : ∀ z : List Char,
      (c :: d :: (rest ++ z)).drop (2 + name.toList.length) = e :: (later ++ z) := by
    intro z
    rw [← List.drop_drop, List.drop_succ_cons, List.drop_succ_cons, List.drop_zero,
      List.drop_append_of_le_length (by omega), hlater, List.cons_append]
  simp only [startsEndTagOf, List.cons_append, hafter, Text.startsWith, Text.startsWithFolded,
    List.drop_succ_cons, List.drop_zero, hname]
  simp [List.isPrefixOf]

/-! ## Turns -/

namespace Scanner

variable {s : Scanner}

/-- Where a tag begins, one is expected. -/
theorem turnText_of_startsTag (h : startsTag s.rest = true) :
    s.turnText = .skip (s.expect .tagOpen) := by
  obtain ⟨hbang, hquestion⟩ := startsWith_of_startsTag h
  obtain ⟨hcomment, hdoctype⟩ := startsWith_of_not_bang hbang
  have hne : s.rest.isEmpty = false := by
    cases hrest : s.rest with
    | nil => rw [hrest] at h; cases h
    | cons c cs => rfl
  simp [turnText, h, hbang, hquestion, hcomment, hdoctype, hne]

/-- The turn at the beginning of a tag reads as much as there is before the name. -/
theorem turnTagOpen_eq {closing : Bool} {c : Char} {cs : List Char} (hc : c.isAlpha = true)
    (hrest : s.rest = (if closing then ['<', '/'] else ['<']) ++ c :: cs) :
    s.turnTagOpen =
      .skip ⟨s.position, c :: cs, .tagName (if closing then ['<', '/'] else ['<'])⟩ := by
  have hslash : c ≠ '/' := by rintro rfl; cases hc
  unfold turnTagOpen
  rw [hrest]
  cases closing with
  | true => simp [Text.startsWith]
  | false => simp [Text.startsWith, List.isPrefixOf, hslash.symm]

/-- Where no markup begins, text is read up to the next markup. -/
theorem turnText_of_not_startsMarkup (hne : s.rest ≠ []) (h : startsMarkup s.rest = false) :
    s.turnText =
      s.emit .text (Text.breakAt startsMarkup s.rest).1
        (Text.breakAt startsMarkup s.rest).2 .text := by
  simp only [startsMarkup, Bool.or_eq_false_iff] at h
  obtain ⟨⟨htag, hbang⟩, hquestion⟩ := h
  obtain ⟨hcomment, hdoctype⟩ := startsWith_of_not_bang hbang
  simp [turnText, htag, hbang, hquestion, hcomment, hdoctype, hne]

/-- A character that can begin a key begins an attribute. -/
theorem turnAttributeName_of_key (tag : TagInProgress) {c : Char} {cs : List Char}
    (hrest : s.skipBlanks.rest = c :: cs) (hc : endsAttrName c = false) :
    s.turnAttributeName tag = s.skipBlanks.readAttribute tag := by
  simp only [endsAttrName, Bool.or_eq_false_iff, beq_eq_false_iff_ne] at hc
  simp only [turnAttributeName]
  split <;> rename_i heq <;> rw [hrest] at heq <;> cases heq <;> simp_all

end Scanner

end HtmlLint
