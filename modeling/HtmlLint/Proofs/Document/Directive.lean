import HtmlLint.Document.Directive

/-!
# Where directives name their rules

A directive is read by cutting its comment into parts, and no part is moved: each rule stands in the
comment at the place that the directive tells (`Directive.standsIn_of_event?`), and the rules come
in the order in which they stand there (`Directive.pairwise_rulesOf`).

The body of a comment is looked for in the text of the comment.  The search could stop too early for
a body that is found in what comes before it; that of a directive is not (`Directive.lead_eq`).
-/

namespace HtmlLint

/-! ## Cutting a text -/

/-- Nothing gets lost where a text is split. -/
private theorem splitBytes_append {n : Nat} {cs a b : List Char}
    (h : splitBytes n cs = some (a, b)) : a ++ b = cs := by
  fun_induction splitBytes n cs generalizing a with
  | case1 cs => cases h; rfl
  | case2 n => cases h
  | case3 n c cs hc ih =>
    obtain ⟨r, hr, heq⟩ := Option.map_eq_some_iff.mp h
    cases heq
    exact congrArg (c :: ·) (ih hr)
  | case4 n c cs hc => cases h

/-- The first part has as many bytes as were asked for. -/
private theorem byteLength_of_splitBytes {n : Nat} {cs a b : List Char}
    (h : splitBytes n cs = some (a, b)) : byteLength a = n := by
  fun_induction splitBytes n cs generalizing a with
  | case1 cs => cases h; rfl
  | case2 n => cases h
  | case3 n c cs hc ih =>
    obtain ⟨r, hr, heq⟩ := Option.map_eq_some_iff.mp h
    cases heq
    have hrest := ih hr
    rw [byteLength_cons, hrest]
    omega
  | case4 n c cs hc => cases h

/-- Every character has at least one byte. -/
private theorem length_le_byteLength (cs : List Char) : cs.length ≤ byteLength cs := by
  induction cs with
  | nil => exact Nat.le_refl _
  | cons c cs ih =>
    have hpos := c.utf8Size_pos
    rw [List.length_cons, byteLength_cons]
    omega

/-- No more characters are skipped than bytes. -/
private theorem length_innerBytes_le (start : Nat) (cs : List Char) :
    (innerBytes start cs).1.length ≤ start := by
  simp only [innerBytes]
  split
  · split
    · rename_i skipped rest hskipped
      have hlength := length_le_byteLength skipped
      rw [byteLength_of_splitBytes hskipped] at hlength
      split
      · exact hlength
      · exact Nat.zero_le _
    · exact Nat.zero_le _
  · exact Nat.zero_le _

/-- The inner part of a text stands in it after the part before. -/
private theorem innerBytes_append (start : Nat) (cs : List Char) :
    ∃ after, cs = (innerBytes start cs).1 ++ (innerBytes start cs).2 ++ after := by
  simp only [innerBytes]
  split
  · split
    · rename_i skipped rest hskipped
      split
      · rename_i kept after hkept
        exact ⟨after,
          by rw [List.append_assoc, splitBytes_append hkept, splitBytes_append hskipped]⟩
      · exact ⟨cs, rfl⟩
    · exact ⟨cs, rfl⟩
  · exact ⟨cs, rfl⟩

namespace Text

/-- A text that starts with another one is that one and what comes after it. -/
private theorem eq_append_of_startsWith {cs : List Char} {lead : String}
    (h : startsWith cs lead = true) :
    cs = lead.toList ++ cs.drop lead.toList.length := by
  obtain ⟨rest, rfl⟩ := List.isPrefixOf_iff_prefix.mp h
  rw [List.drop_left]

/-- What is left of a trimmed text stands in it after the blanks at its start. -/
private theorem trim_append (cs : List Char) :
    ∃ after, cs = cs.takeWhile isBlank ++ trim cs ++ after := by
  have htrim : ∀ l : List Char, trimEnd l ++ (l.reverse.takeWhile isBlank).reverse = l := by
    intro l
    rw [trimEnd, ← List.reverse_append, List.takeWhile_append_dropWhile, List.reverse_reverse]
  refine ⟨((trimStart cs).reverse.takeWhile isBlank).reverse, ?_⟩
  rw [List.append_assoc, trim, htrim, trimStart, List.takeWhile_append_dropWhile]

/-- A text without separator is one part; otherwise the first part is what stands before the first
one. -/
theorem splitOn_cases (sep : Char) (cs : List Char) :
    splitOn sep cs = [cs] ∨ ∃ a b, cs = a ++ sep :: b ∧ splitOn sep cs = a :: splitOn sep b := by
  induction cs with
  | nil => exact .inl rfl
  | cons c cs ih =>
    by_cases hc : c = sep
    · subst hc
      exact .inr ⟨[], cs, rfl, by rw [splitOn, if_pos rfl]⟩
    · rw [splitOn, if_neg hc]
      obtain hone | ⟨a, b, rfl, hsplit⟩ := ih
      · exact .inl (by rw [hone])
      · exact .inr ⟨c :: a, b, rfl, by rw [hsplit]⟩

end Text

namespace Token

/-- Before the body of a comment stands what the body is told to come after. -/
private theorem commentParts_append (t : Token) :
    ∃ after, t.text.toList = t.commentParts.1 ++ t.commentParts.2 ++ after := by
  simp only [commentParts]
  split
  · rename_i inner hinner
    simp only [commentInner?] at hinner
    split at hinner
    · rename_i hlead
      split at hinner
      · cases hinner
        refine ⟨(t.text.toList.drop 4).drop ((t.text.toList.drop 4).length - 3), ?_⟩
        rw [List.append_assoc, List.take_append_drop]
        exact Text.eq_append_of_startsWith hlead
      · cases hinner
    · cases hinner
  · exact innerBytes_append 2 _

/-- The body of a full comment is what stands between its delimiters. -/
theorem commentParts_full (kind : TokenKind) (body : String) (l : Location) :
    commentParts ⟨kind, "<!--" ++ body ++ "-->", l⟩ = ("<!--".toList, body.toList) := by
  have htext : ("<!--" ++ body ++ "-->").toList =
      "<!--".toList ++ (body.toList ++ "-->".toList) := by
    simp [String.toList_append]
  have hstarts : Text.startsWith ("<!--".toList ++ (body.toList ++ "-->".toList)) "<!--" = true :=
    List.isPrefixOf_iff_prefix.mpr (List.prefix_append _ _)
  have hdrop : ("<!--".toList ++ (body.toList ++ "-->".toList)).drop 4 =
      body.toList ++ "-->".toList := by simp
  have hends : "-->".toList.isSuffixOf (body.toList ++ "-->".toList) = true :=
    List.isSuffixOf_iff_suffix.mpr (List.suffix_append _ _)
  have htake : (body.toList ++ "-->".toList).take
      ((body.toList ++ "-->".toList).length - 3) = body.toList := by
    have hlength : (body.toList ++ "-->".toList).length - 3 = body.toList.length := by
      have hmark : "-->".toList.length = 3 := by decide
      rw [List.length_append, hmark, Nat.add_sub_cancel]
    rw [hlength, List.take_left]
  simp only [commentParts, commentInner?, htext, hstarts, hdrop, hends, htake, if_true]

/-- At most four characters stand before the body. -/
private theorem length_commentParts_le (t : Token) : t.commentParts.1.length ≤ 4 := by
  simp only [commentParts]
  split
  · exact Nat.le_refl 4
  · exact Nat.le_trans (length_innerBytes_le 2 _) (by omega)

end Token

/-! ## Rules -/

/-- The rule is named in a text that starts at this point, where it says. -/
def DirectiveRule.StandsIn (r : DirectiveRule) (p : Position) (cs : List Char) : Prop :=
  r.id.toList ≠ [] ∧ ∃ before after, cs = before ++ r.id.toList ++ after ∧
    r.location = .covering (p.advance before) r.id.toList

/-- It is then named in every longer text. -/
theorem DirectiveRule.StandsIn.extend {r : DirectiveRule} {p : Position} {cs : List Char}
    (a b : List Char) (h : r.StandsIn (p.advance a) cs) : r.StandsIn p (a ++ cs ++ b) := by
  obtain ⟨hne, before, after, rfl, hlocation⟩ := h
  refine ⟨hne, a ++ before, after ++ b, ?_, ?_⟩
  · simp only [List.append_assoc]
  · rw [hlocation, Position.advance_append]

/-- It has a length, and keeps within the text. -/
theorem DirectiveRule.StandsIn.bounds {r : DirectiveRule} {p : Position} {cs : List Char}
    (h : r.StandsIn p cs) :
    p.offset ≤ r.location.offset ∧ 0 < r.location.size ∧
    r.location.stop ≤ p.offset + byteLength cs := by
  obtain ⟨hne, before, after, rfl, hlocation⟩ := h
  have hpos : 0 < byteLength r.id.toList :=
    Nat.lt_of_lt_of_le (List.length_pos_iff.mpr hne) (length_le_byteLength _)
  have hoffset : r.location.offset = p.offset + byteLength before := by
    rw [hlocation]
    exact Position.offset_advance _ _
  have hsize : r.location.size = byteLength r.id.toList := by rw [hlocation]; rfl
  rw [Location.stop, hoffset, hsize, byteLength_append, byteLength_append]
  omega

namespace Directive

/-- The rules of a list stand in the list. -/
private theorem standsIn_of_mem_rulesOf {p : Position} {cs : List Char} {r : DirectiveRule}
    (h : r ∈ rulesOf p (Text.splitOn ',' cs)) : r.StandsIn p cs := by
  -- the first item of a list, wherever the list goes on
  have hfirst : ∀ {p : Position} {item : List Char} {items : List (List Char)}, r ∈ rulesOf p
      (item :: items) → r.StandsIn p item ∨ r ∈ rulesOf (p.advance (item ++ [','])) items := by
    intro p item items hr
    simp only [rulesOf] at hr
    split at hr
    · exact .inr hr
    · rename_i hne
      cases List.mem_cons.mp hr with
      | inr hr => exact .inr hr
      | inl hr =>
        obtain ⟨after, hitem⟩ := Text.trim_append item
        subst hr
        refine .inl ⟨by simpa using hne, item.takeWhile Text.isBlank, after, ?_, ?_⟩
        · rwa [String.toList_ofList]
        · rw [String.toList_ofList]
  induction hlength : cs.length using Nat.strongRecOn generalizing p cs with
  | ind length ih =>
    obtain hone | ⟨a, b, rfl, hsplit⟩ := Text.splitOn_cases ',' cs
    · rw [hone] at h
      exact (hfirst h).resolve_right (by simp [rulesOf])
    · rw [hsplit] at h
      cases hfirst h with
      | inl h => exact h.extend [] (',' :: b)
      | inr h =>
        have hshorter : b.length < length := by
          rw [← hlength, List.length_append, List.length_cons]
          omega
        have hstands := (ih b.length hshorter h rfl).extend (a ++ [',']) []
        simpa using hstands

/-- They stand after its start. -/
private theorem offset_le_of_mem_rulesOf {p : Position} {items : List (List Char)}
    {r : DirectiveRule} (h : r ∈ rulesOf p items) : p.offset ≤ r.location.offset := by
  induction items generalizing p with
  | nil => cases h
  | cons item items ih =>
    -- the later items begin after this one and its comma
    have hlater : r ∈ rulesOf (p.advance (item ++ [','])) items → p.offset ≤ r.location.offset := by
      intro hr
      have hle := ih hr
      rw [Position.offset_advance] at hle
      omega
    simp only [rulesOf] at h
    split at h
    · exact hlater h
    · cases List.mem_cons.mp h with
      | inr hr => exact hlater hr
      | inl hr =>
        subst hr
        show p.offset ≤ (p.advance (item.takeWhile Text.isBlank)).offset
        rw [Position.offset_advance]
        exact Nat.le_add_right _ _

/-- The rules of a list come one after the other, with a comma at least between two of them. -/
theorem pairwise_rulesOf (p : Position) (items : List (List Char)) :
    (rulesOf p items).Pairwise fun r later => r.location.stop < later.location.offset := by
  induction items generalizing p with
  | nil => exact .nil
  | cons item items ih =>
    simp only [rulesOf]
    split
    · exact ih _
    · refine List.pairwise_cons.mpr ⟨fun later hlater => ?_, ih _⟩
      have hafter := offset_le_of_mem_rulesOf hlater
      rw [Position.offset_advance, byteLength_append] at hafter
      have hcomma : byteLength [','] = 1 := rfl
      -- the name is a part of the item, behind the blanks that it begins with
      obtain ⟨after, hitem⟩ := Text.trim_append item
      have hinside := congrArg byteLength hitem
      rw [byteLength_append, byteLength_append] at hinside
      show (p.advance (item.takeWhile Text.isBlank)).offset + byteLength (Text.trim item) < _
      rw [Position.offset_advance]
      omega

/-- A body goes on after the part before the rules and the rules. -/
private theorem ofBody?_prefix {body : List Char} {parts : Parts} (h : ofBody? body = some parts) :
    parts.before ++ parts.rules <+: body := by
  simp only [ofBody?] at h
  split at h
  · rename_i hopening
    have hcs := Text.eq_append_of_startsWith hopening
    rw [String.length_toList] at hcs
    split at h
    · cases h
      refine ((List.prefix_append_right_inj _).mpr (List.takeWhile_prefix _)).trans ?_
      simp only [List.append_assoc, List.takeWhile_append_dropWhile]
      exact ⟨[], by rw [← hcs, List.takeWhile_append_dropWhile, List.append_nil]⟩
    · cases h
  · cases h

/-- A body that looks like a directive cannot be read a few characters before its place: behind its
blanks there is a bracket, and it does not come again soon. -/
private theorem not_prefix_of_shifted {body pre after : List Char}
    (h : Text.startsWith (Text.trimStart body) opening = true) (hne : pre ≠ [])
    (hlength : pre.length ≤ 4) : ¬ body <+: pre ++ (body ++ after) := by
  rintro ⟨more, hmore⟩
  obtain ⟨rest, hrest⟩ : ∃ rest, body =
      body.takeWhile Text.isBlank ++ (opening.toList ++ rest) := by
    refine ⟨(Text.trimStart body).drop opening.toList.length, ?_⟩
    rw [← Text.eq_append_of_startsWith h, Text.trimStart, List.takeWhile_append_dropWhile]
  generalize body.takeWhile Text.isBlank = blanks at hrest
  -- the characters of the opening, in the body and in the text that the body is read in
  have hbody : ∀ k, k < 15 → ∀ cs, (body ++ cs)[blanks.length + k]? = opening.toList[k]? := by
    intro k hk cs
    have hopening : opening.toList.length = 15 := rfl
    rw [hrest, List.append_assoc, List.getElem?_append_right (Nat.le_add_right _ _),
      Nat.add_sub_cancel_left, List.append_assoc, List.getElem?_append_left (by omega)]
  have hpos : 0 < pre.length := List.length_pos_iff.mpr hne
  have hbracket : (pre ++ (body ++ after))[blanks.length + pre.length]? = some '[' := by
    rw [List.getElem?_append_right (by omega), Nat.add_sub_cancel, ← Nat.add_zero blanks.length,
      hbody 0 (by omega)]
    rfl
  rw [← hmore, hbody pre.length (by omega)] at hbracket
  have hnone : ∀ k < 5, 0 < k → opening.toList[k]? ≠ some '[' := by decide
  exact hnone pre.length (by omega) hpos hbracket

/-- The body of a comment that looks like a directive is found where it stands. -/
theorem lead_eq {t : Token} (h : Text.startsWith (Text.trimStart t.commentBody) opening = true) :
    lead t = t.commentParts.1 := by
  obtain ⟨after, htext⟩ := t.commentParts_append
  have hfound :
      Text.breakAt t.commentBody.isPrefixOf (t.commentParts.1 ++ (t.commentBody ++ after)) =
      (t.commentParts.1, t.commentBody ++ after) := by
    refine Text.breakAt_eq (.inr (List.isPrefixOf_iff_prefix.mpr (List.prefix_append _ _))) ?_
    intro x c y hsplit
    have hlength := t.length_commentParts_le
    rw [hsplit, List.length_append] at hlength
    rw [← Bool.not_eq_true, List.isPrefixOf_iff_prefix]
    exact not_prefix_of_shifted h (List.cons_ne_nil c y) (by omega)
  rw [lead, htext, List.append_assoc]
  exact (congrArg Prod.fst hfound :)

/-- What a directive event says is read off the parts of its comment. -/
theorem event?_eq_directive {t : Token} {parent p : NodeId} {action : DirectiveAction}
    {rules : List DirectiveRule} {location : Location}
    (h : event? t parent = some (.directive action rules p location)) :
    location = t.location ∧ ∃ parts, ofBody? t.commentParts.2 = some parts ∧
      rules = rulesOf (t.location.toPosition.advance (t.commentParts.1 ++ parts.before))
        (Text.splitOn ',' parts.rules) := by
  simp only [event?] at h
  split at h
  · rename_i hlooks
    rw [lead_eq hlooks] at h
    split at h
    · cases h
    · rename_i parts hparts
      split at h
      · cases h
      · cases h
        exact ⟨rfl, parts, hparts, rfl⟩
  · cases h

/-- Each rule of a directive stands in the comment where the directive tells. -/
theorem standsIn_of_event? {t : Token} {parent p : NodeId} {action : DirectiveAction}
    {rules : List DirectiveRule} {location : Location}
    (h : event? t parent = some (.directive action rules p location)) {r : DirectiveRule}
    (hr : r ∈ rules) :
    r.StandsIn t.location.toPosition t.text.toList := by
  obtain ⟨-, parts, hparts, rfl⟩ := event?_eq_directive h
  obtain ⟨after, htext⟩ := t.commentParts_append
  obtain ⟨more, hbody⟩ := ofBody?_prefix hparts
  have hstands :=
    (standsIn_of_mem_rulesOf hr).extend (t.commentParts.1 ++ parts.before) (more ++ after)
  rw [htext, ← hbody]
  simpa only [List.append_assoc] using hstands

/-- A directive therefore names its rules before it ends. -/
theorem rules_inside {t : Token} (hsize : t.location.size = byteLength t.text.toList)
    {parent p : NodeId} {action : DirectiveAction} {rules : List DirectiveRule}
    {location : Location} (h : event? t parent = some (.directive action rules p location))
    {r : DirectiveRule} (hr : r ∈ rules) :
    r.location.offset < location.stop := by
  obtain ⟨rfl, -⟩ := event?_eq_directive h
  obtain ⟨-, hpos, hstop⟩ := (standsIn_of_event? h hr).bounds
  rw [← hsize] at hstop
  exact Nat.lt_of_lt_of_le (Nat.lt_add_of_pos_right hpos) hstop

end Directive

end HtmlLint
