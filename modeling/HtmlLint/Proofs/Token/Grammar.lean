import Mathlib.Computability.RegularExpressions
import HtmlLint.Proofs.Token.Cut

/-!
# The grammar of tokens

The kinds of the tokens of a source form a word of a regular expression, `Grammar.source`: text,
comments, doctypes and tags in any order, where a tag goes from its beginning over its attributes to
its end.  The scanner nowhere checks this.  It holds because in every mode only some tokens can be
cut: `ScanMode.grammar` tells what can follow in a mode, and with every token and every turn without
one the scanner stays within it.  A fault leaves a word unfinished, so that the tokens before it are
the beginning of one.

The second subject is the text of values.  A value is written in quotes that do not occur in it, or
else it has no blank, no `>` and no quote at its start, and `Token.attrValue` tells the two apart.
-/

namespace HtmlLint

/-! ## Words -/

namespace Grammar

/-- An attribute has a name and may have a value. -/
def attr : RegularExpression TokenKind :=
  .char .attrName * (1 + .char .attrValue)

/-- A tag has any number of attributes. -/
def tag : RegularExpression TokenKind :=
  .char .tagOpen * attr.star * .char .tagClose

/-- What a source is made of. -/
def piece : RegularExpression TokenKind :=
  .char .text + .char .comment + .char .doctype + tag

/-- A source is any number of pieces. -/
def source : RegularExpression TokenKind :=
  piece.star

/-- What may come between the name of a tag and the end of the source. -/
def inTag : RegularExpression TokenKind :=
  attr.star * (.char .tagClose * source)

variable {P : RegularExpression TokenKind} {kind : TokenKind} {ks ks' : List TokenKind}

/-- A kind before a word of a language. -/
private theorem cons_mem (h : ks ∈ P.matches') :
    kind :: ks ∈ (.char kind * P : RegularExpression TokenKind).matches' :=
  Language.append_mem_mul (Set.mem_singleton [kind]) h

/-- One more word before a row of words. -/
private theorem append_mem_star (h : ks ∈ P.matches') (h' : ks' ∈ P.star.matches') :
    ks ++ ks' ∈ P.star.matches' :=
  Set.mem_of_mem_of_subset (Language.append_mem_mul h h') (mul_kstar_le_kstar (a := P.matches'))

/-- A source may be empty. -/
private theorem nil_mem_source : [] ∈ source.matches' :=
  Language.nil_mem_kstar _

/-- Text, a comment and a doctype are pieces. -/
private theorem cons_mem_source (hkind : kind = .text ∨ kind = .comment ∨ kind = .doctype)
    (h : ks ∈ source.matches') :
    kind :: ks ∈ source.matches' := by
  have hpiece : [kind] ∈ piece.matches' := by
    obtain rfl | rfl | rfl := hkind
    · exact .inl (.inl (.inl rfl))
    · exact .inl (.inl (.inr rfl))
    · exact .inl (.inr rfl)
  exact append_mem_star hpiece h

/-- An attribute is followed by what follows its name or its value. -/
private theorem attrName_mem_inTag (h : ks ∈ inTag.matches') :
    .attrName :: ks ∈ inTag.matches' := by
  obtain ⟨attributes, hattributes, later, hlater, rfl⟩ := Language.mem_mul.mp h
  have hname : [.attrName] ∈ attr.matches' := cons_mem (.inl rfl)
  exact Language.append_mem_mul (append_mem_star hname hattributes) hlater

/-- Inside a tag there may be an attribute with its value. -/
private theorem attrValue_mem_inTag (h : ks ∈ inTag.matches') :
    .attrName :: .attrValue :: ks ∈ inTag.matches' := by
  obtain ⟨attributes, hattributes, later, hlater, rfl⟩ := Language.mem_mul.mp h
  have hboth : [.attrName, .attrValue] ∈ attr.matches' := cons_mem (.inr rfl)
  exact Language.append_mem_mul (append_mem_star hboth hattributes) hlater

/-- A tag may end, and the source goes on. -/
private theorem tagClose_mem_inTag (h : ks ∈ source.matches') : .tagClose :: ks ∈ inTag.matches' :=
  Language.append_mem_mul (Language.nil_mem_kstar attr.matches') (cons_mem h)

/-- From its beginning on, a tag and what follows it is a source. -/
private theorem tagOpen_mem_source (h : ks ∈ inTag.matches') :
    .tagOpen :: ks ∈ source.matches' := by
  obtain ⟨attributes, hattributes, _, hrest, rfl⟩ := Language.mem_mul.mp h
  obtain ⟨close, hclose, later, hlater, rfl⟩ := Language.mem_mul.mp hrest
  have htag : .tagOpen :: attributes ++ close ∈ tag.matches' :=
    Language.append_mem_mul (cons_mem hattributes) hclose
  have hpiece : .tagOpen :: attributes ++ close ∈ piece.matches' := .inr htag
  rw [← List.append_assoc, ← List.cons_append]
  exact append_mem_star hpiece hlater

end Grammar

/-- What may come in this mode up to the end of the source. -/
def ScanMode.grammar : ScanMode → RegularExpression TokenKind
  | .text | .rawText _ | .failed => Grammar.source
  | .tagOpen | .tagName _ => .char .tagOpen * Grammar.inTag
  | .comment => .char .comment * Grammar.source
  | .doctype => .char .doctype * Grammar.source
  | .attributeName _ => Grammar.inTag
  | .attributeValue _ => .char .attrValue * Grammar.inTag

/-- In every mode the source can come to an end. -/
private theorem ScanMode.exists_mem_grammar (mode : ScanMode) :
    ∃ ks, ks ∈ mode.grammar.matches' := by
  have htag := Grammar.tagClose_mem_inTag Grammar.nil_mem_source
  cases mode with
  | text | rawText | failed => exact ⟨_, Grammar.nil_mem_source⟩
  | tagOpen | tagName | attributeValue => exact ⟨_, Grammar.cons_mem htag⟩
  | comment | doctype => exact ⟨_, Grammar.cons_mem Grammar.nil_mem_source⟩
  | attributeName => exact ⟨_, htag⟩

/-! ## The scanner stays within the grammar -/

namespace Scanner

variable {s s' : Scanner} {p : Position} {mode next : ScanMode} {gap text after w : List Char}
  {kind : TokenKind} {ks : List TokenKind}

/-- A token that is cut in a mode may come there, whatever may come after it. -/
private theorem Cut.cons_mem_grammar (h : Cut p mode gap kind text after w next)
    (hks : ks ∈ next.grammar.matches') :
    kind :: ks ∈ mode.grammar.matches' := by
  cases h with
  | text | rawText => exact Grammar.cons_mem_source (.inl rfl) hks
  | tagOpen | quoted | bare | comment | bogus | doctype => exact Grammar.cons_mem hks
  | attrName => exact Grammar.attrName_mem_inTag hks
  | attrKey =>
    split at hks
    · exact Grammar.attrName_mem_inTag hks
    · -- a value is expected, and it comes first in what follows
      obtain ⟨value, rfl, later, hlater, rfl⟩ := Language.mem_mul.mp hks
      exact Grammar.attrValue_mem_inTag hlater
  | @tagClose tag =>
    obtain hnext | ⟨name, hnext⟩ := afterTag_cases tag
    all_goals
      rw [hnext] at hks
      exact Grammar.tagClose_mem_inTag hks
  | selfClose => exact Grammar.tagClose_mem_inTag hks

/-- A turn without a token only narrows what may come. -/
private theorem mem_grammar_of_skip (h : s.turn = .skip s') (hks : ks ∈ s'.mode.grammar.matches') :
    ks ∈ s.mode.grammar.matches' := by
  obtain ⟨hm, -, hnext⟩ | ⟨name, hm, rfl, -⟩ | ⟨tag, gap, w, hm, -, -, -, rfl⟩
      | ⟨lead, w, hm, -, rfl⟩ :=
    turn_skip_cases h
  · rw [hm]
    obtain rfl | rfl | rfl := hnext
    all_goals obtain ⟨first, rfl, later, hlater, rfl⟩ := Language.mem_mul.mp hks
    · exact Grammar.cons_mem_source (.inr (.inl rfl)) hlater
    · exact Grammar.cons_mem_source (.inr (.inr rfl)) hlater
    · exact Grammar.tagOpen_mem_source hlater
  · rw [hm]
    exact hks
  · rw [hm]
    exact hks
  · rw [hm]
    exact hks

/-- The kinds of the tokens of a run are the beginning of a word, and a whole word if there is no
fault. -/
private theorem run_mem_grammar (hs : s.Poised) :
    ∃ later, s.run.tokens.map Token.kind ++ later ∈ s.mode.grammar.matches' ∧
      (s.run.failure = none → later = []) := by
  fun_induction run s with
  | case1 s t s' hturn rest =>
    rename_i ih
    obtain ⟨gap, after, -, hcut⟩ := turn_makesCut hs hturn
    obtain ⟨later, hlater, hwhole⟩ := ih (hs.token hturn)
    exact ⟨later, hcut.cons_mem_grammar hlater, hwhole⟩
  | case2 s s' hturn ih =>
    obtain ⟨later, hlater, hwhole⟩ := ih (hs.skip hturn)
    exact ⟨later, mem_grammar_of_skip hturn hlater, hwhole⟩
  | case3 s e hturn =>
    -- a fault leaves the word unfinished, and every mode can be finished somehow
    obtain ⟨later, hlater⟩ := s.mode.exists_mem_grammar
    refine ⟨later, hlater, fun hnone => ?_⟩
    cases hnone
  | case4 s hturn =>
    refine ⟨[], ?_, fun _ => rfl⟩
    rw [mode_of_finished hs hturn]
    exact Grammar.nil_mem_source

end Scanner

/-! ## Values -/

/-- The character that stands around a value. -/
def Quote.mark? : Quote → Option Char
  | .double => some '"'
  | .single => some '\''
  | .unquoted => none

namespace Token

/-- The token is a value in quotes that do not stand in it. -/
def IsQuoted (t : Token) (style : Quote) (value : List Char) : Prop :=
  ∃ q, style.mark? = some q ∧ t.text.toList = q :: value ++ [q] ∧ q ∉ value

/-- The token is a value without quotes: it has no blank and no `>`, and does not start with a
quote. -/
structure IsBare (t : Token) : Prop where
  ne_nil : t.text.toList ≠ []
  stays : ∀ c ∈ t.text.toList, Text.isBlank c = false ∧ c ≠ '>'
  start : ∀ c ∈ t.text.toList.head?, ∀ style : Quote, style.mark? ≠ some c

variable {t : Token}

/-- What stands between two quotes is found. -/
private theorem between?_append (q : Char) (value : List Char) :
    between? q (q :: value ++ [q]) = some value := by
  simp [between?]

/-- Nothing stands between quotes where no quote begins it. -/
private theorem between?_of_ne {q c : Char} {cs : List Char} (h : c ≠ q) :
    between? q (c :: cs) = none := by
  simp [between?, h]

/-- A value in quotes is read without them. -/
private theorem IsQuoted.attrValue {style : Quote} {value : List Char}
    (h : t.IsQuoted style value) :
    t.attrValue = (String.ofList value, style) := by
  obtain ⟨q, hq, htext, -⟩ := h
  cases style with
  | double =>
    cases hq
    simp only [Token.attrValue, htext, between?_append]
  | single =>
    cases hq
    have hdouble : between? '"' ('\'' :: value ++ ['\'']) = none := between?_of_ne (by decide)
    simp only [Token.attrValue, htext, hdouble, between?_append]
  | unquoted => cases hq

/-- A value without quotes is read as it is. -/
private theorem IsBare.attrValue (h : t.IsBare) : t.attrValue = (t.text, .unquoted) := by
  obtain ⟨c, cs, htext⟩ := List.exists_cons_of_ne_nil h.ne_nil
  have hstart : ∀ style : Quote, style.mark? ≠ some c := h.start c (by rw [htext]; rfl)
  have hdouble : between? '"' (c :: cs) = none :=
    between?_of_ne fun hc => hstart .double (by rw [hc]; rfl)
  have hsingle : between? '\'' (c :: cs) = none :=
    between?_of_ne fun hc => hstart .single (by rw [hc]; rfl)
  simp only [Token.attrValue, htext, hdouble, hsingle]

end Token

/-- What is cut as a value is in quotes or bare. -/
private theorem Scanner.Cut.of_attrValue {p : Position} {mode next : ScanMode}
    {gap after w : List Char} {t : Token} (h : Cut p mode gap t.kind t.text.toList after w next)
    (hkind : t.kind = .attrValue) :
    (∃ style value, t.IsQuoted style value) ∨ t.IsBare := by
  rw [hkind] at h
  -- only two cuts make a value
  generalize htext : t.text.toList = text at h
  cases h with
  | @quoted tag gap inner w q hgap hq hinner =>
    obtain rfl | rfl := hq
    · exact .inl ⟨.double, inner, '"', rfl, htext, hinner⟩
    · exact .inl ⟨.single, inner, '\'', rfl, htext, hinner⟩
  | @bare tag c gap cs w hgap hc hvalue hstop =>
    refine .inr ⟨by rw [htext]; exact List.cons_ne_nil _ _, fun x hx => ?_, fun x hx style => ?_⟩
    · rw [htext] at hx
      simpa [endsBareValue] using hvalue x hx
    · obtain rfl : c = x := by simpa [htext] using hx
      cases style with
      | double => exact fun hmark => hc.1 (Option.some.inj hmark).symm
      | single => exact fun hmark => hc.2 (Option.some.inj hmark).symm
      | unquoted =>
        intro hmark
        cases hmark

/-- The kinds of the tokens of a source are a word of the grammar if it can be cut up, and the
beginning of one in any case.  A value is in quotes that do not stand in it, and is read as what is
between them with their style.  Or else it is not empty, has no blank and no `>`, does not start
with a quote, and is read as it is. -/
theorem tokenize_mem_grammar (source : String) :
    ((tokenize source).failure = none →
      (tokenize source).tokens.map Token.kind ∈ Grammar.source.matches') ∧
    (∃ later, (tokenize source).tokens.map Token.kind ++ later ∈ Grammar.source.matches') ∧
    ∀ t ∈ (tokenize source).tokens, t.kind = .attrValue →
      (∃ style value, t.IsQuoted style value ∧ t.attrValue = (String.ofList value, style)) ∨
        (t.IsBare ∧ t.attrValue = (t.text, .unquoted)) := by
  obtain ⟨later, hlater, hwhole⟩ := Scanner.run_mem_grammar (s := .ofSource source.toList) trivial
  refine ⟨fun hnone => ?_, ⟨later, hlater⟩, fun t ht hkind => ?_⟩
  · rw [hwhole hnone, List.append_nil] at hlater
    exact hlater
  · obtain ⟨before, rest, hsplit⟩ := List.append_of_mem ht
    obtain ⟨s, s', hs, -, hturn, -⟩ := Scanner.exists_turn (P := fun _ _ => True)
      (fun _ _ _ _ _ _ => trivial) (fun _ _ _ _ _ _ _ => trivial) (s := .ofSource source.toList)
      trivial [] trivial hsplit
    obtain ⟨gap, after, -, hcut⟩ := Scanner.turn_makesCut hs hturn
    obtain ⟨style, value, hquoted⟩ | hbare := hcut.of_attrValue hkind
    · exact .inl ⟨style, value, hquoted, hquoted.attrValue⟩
    · exact .inr ⟨hbare, hbare.attrValue⟩

/-- An equals sign without a value, an end tag with an attribute, and two values with the other
quote in them. -/
theorem tokenize_mem_grammar_link :
    let ts := (tokenize "<a b = 'x\"y' c=d' e= ></a f>g").tokens
    (tokenize "<a b = 'x\"y' c=d' e= ></a f>g").failure = none ∧
    ts.map Token.kind ∈ Grammar.source.matches' ∧
      ∃ t u, ts[2]? = some t ∧ t.kind = .attrValue ∧ t.attrValue = ("x\"y", .single) ∧
        (∃ style value, t.IsQuoted style value) ∧
        ts[4]? = some u ∧ u.kind = .attrValue ∧ u.attrValue = ("d'", .unquoted) ∧ u.IsBare := by
  intro ts
  have hnone : (tokenize "<a b = 'x\"y' c=d' e= ></a f>g").failure = none := by decide +kernel
  have hshapes : [2, 4].map (fun i => ts[i]?.map fun t => (t.kind, t.attrValue)) =
      [some (.attrValue, "x\"y", .single), some (.attrValue, "d'", .unquoted)] := by
    decide +kernel
  simp only [List.map_cons, List.map_nil, List.cons.injEq, and_true, Option.map_eq_some_iff,
    Prod.mk.injEq] at hshapes
  obtain ⟨⟨t, ht, htkind, htvalue⟩, u, hu, hukind, huvalue⟩ := hshapes
  obtain ⟨hword, -, hvalues⟩ := tokenize_mem_grammar "<a b = 'x\"y' c=d' e= ></a f>g"
  refine ⟨hnone, hword hnone, t, u, ht, htkind, htvalue, ?_, hu, hukind, huvalue, ?_⟩
  · obtain ⟨style, value, hquoted, -⟩ | ⟨-, hbare⟩ := hvalues t (List.mem_of_getElem? ht) htkind
    · exact ⟨style, value, hquoted⟩
    · cases congrArg Prod.snd (hbare.symm.trans htvalue)
  · obtain ⟨style, value, ⟨q, hq, -⟩, hquoted⟩ | ⟨hbare, -⟩ :=
      hvalues u (List.mem_of_getElem? hu) hukind
    · have hstyle : style = .unquoted := congrArg Prod.snd (hquoted.symm.trans huvalue)
      rw [hstyle] at hq
      cases hq
    · exact hbare

end HtmlLint
