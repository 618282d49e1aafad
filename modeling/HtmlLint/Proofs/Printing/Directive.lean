import Mathlib.Data.List.Infix
import HtmlLint.Proofs.Construction.Run
import HtmlLint.Proofs.Document.Directive
import HtmlLint.Proofs.Token.Cut
import HtmlLint.Text.Listing

/-!
# Directives and their printed form

A `Directive` is written as a comment that holds its action, the rules that it names and a remark
for readers.  What is written can be read back (`parse_print_directive`): building the document of
such a comment tells of this directive and of nothing else.

The parts of the body are found one after the other, each ending where the next one begins
(`Directive.ofBody?_append`).  The rules are then found between the commas, where the blank before
each of them does no harm (`Directive.map_trim_splitOn`).
-/

namespace HtmlLint

/-- A directive as it is meant: what it does, to which rules, and why. -/
structure Directive where
  action : DirectiveAction
  ids : List String
  remark : Option String
  deriving DecidableEq, Inhabited

/-- The id of a rule can be written in a list of rules. -/
structure IsRuleId (id : String) : Prop where
  ne_nil : id.toList ≠ []
  first : id.toList.head?.any Text.isBlank = false
  last : id.toList.getLast?.any Text.isBlank = false
  comma : ',' ∉ id.toList
  colon : ':' ∉ id.toList
  bracket : ']' ∉ id.toList

instance : DecidablePred IsRuleId := fun _ =>
  decidable_of_iff (_ ∧ _ ∧ _ ∧ _ ∧ _ ∧ _)
    ⟨fun ⟨hne, hfirst, hlast, hcomma, hcolon, hbracket⟩ =>
      ⟨hne, hfirst, hlast, hcomma, hcolon, hbracket⟩,
      fun h => ⟨h.ne_nil, h.first, h.last, h.comma, h.colon, h.bracket⟩⟩

namespace Directive

/-! ## Printing -/

/-- The list of rules, after a blank. -/
def printIds (ids : List String) : String :=
  if ids.isEmpty then "" else " " ++ Text.joinWith ", " ids

/-- The remark, after a colon. -/
def printRemark : Option String → String
  | none => ""
  | some remark => ": " ++ remark

/-- The body of the comment that a directive is written as. -/
def printBody (d : Directive) : String :=
  " [html-validate-" ++ d.action.name ++ printIds d.ids ++ printRemark d.remark ++ "] "

/-- The written form of a directive. -/
def print (d : Directive) : String :=
  "<!--" ++ d.printBody ++ "-->"

/-- The directive can be written: ids and remark do not end what they stand in. -/
structure IsWritable (d : Directive) : Prop where
  ids : ∀ id ∈ d.ids, IsRuleId id
  remark : ∀ remark ∈ d.remark, ']' ∉ remark.toList
  body : ¬ "-->".toList <:+: d.printBody.toList

instance : DecidablePred IsWritable := fun _ =>
  decidable_of_iff (_ ∧ _ ∧ _) ⟨fun ⟨hids, hremark, hbody⟩ => ⟨hids, hremark, hbody⟩,
    fun h => ⟨h.ids, h.remark, h.body⟩⟩

end Directive

/-- An action is known by its name. -/
private theorem DirectiveAction.ofName?_name (action : DirectiveAction) :
    ofName? action.name = some action := by
  cases action <;> rfl

/-! ## Lists of rules -/

namespace Text

variable {sep : Char} {a : List Char}

/-- A text without a separator is one part. -/
private theorem splitOn_of_not_mem (h : sep ∉ a) : splitOn sep a = [a] := by
  obtain hone | ⟨x, y, hsplit, -⟩ := splitOn_cases sep a
  · exact hone
  · exact absurd (by simp [hsplit]) h

/-- The first separator ends the first part. -/
private theorem splitOn_append (h : sep ∉ a) (b : List Char) :
    splitOn sep (a ++ sep :: b) = a :: splitOn sep b := by
  induction a with
  | nil => simp [splitOn]
  | cons c a ih =>
    have hc : c ≠ sep := by rintro rfl; exact h (List.mem_cons_self ..)
    have ha : sep ∉ a := fun hmem => h (List.mem_cons_of_mem c hmem)
    simp [splitOn, hc, ih ha]

/-- A blank before a list does not change its items but for blanks. -/
private theorem map_trim_splitOn_cons {c : Char} (hc : isBlank c = true) (hsep : c ≠ sep)
    (cs : List Char) :
    (splitOn sep (c :: cs)).map trim = (splitOn sep cs).map trim := by
  have htrim : ∀ item, trim (c :: item) = trim item := by
    intro item
    simp [trim, trimStart, hc]
  obtain hone | ⟨a, b, -, hsplit⟩ := splitOn_cases sep cs
  · simp [splitOn, hsep, hone, htrim]
  · simp [splitOn, hsep, hsplit, htrim]

end Text

/-- There is nothing to trim around the name of a rule. -/
private theorem IsRuleId.trim_eq {id : String} (h : IsRuleId id) :
    Text.trim id.toList = id.toList := by
  have hstays : ∀ cs : List Char, cs.head?.any Text.isBlank = false →
      cs.dropWhile Text.isBlank = cs := by
    intro cs hcs
    cases cs with
    | nil => rfl
    | cons c cs => exact List.dropWhile_cons_of_neg (by simpa using hcs)
  have hlast : id.toList.reverse.head?.any Text.isBlank = false := by
    rw [List.head?_reverse]
    exact h.last
  rw [Text.trim, Text.trimStart, hstays _ h.first, Text.trimEnd, hstays _ hlast,
    List.reverse_reverse]

namespace Directive

/-- Between the commas there are the ids, and blanks. -/
theorem map_trim_splitOn {ids : List String} (hne : ids ≠ []) (hids : ∀ id ∈ ids, IsRuleId id) :
    (Text.splitOn ',' (Text.joinWith ", " ids).toList).map Text.trim = ids.map String.toList := by
  induction ids with
  | nil => exact absurd rfl hne
  | cons id ids ih =>
    obtain ⟨hid, hlater⟩ := List.forall_mem_cons.mp hids
    cases ids with
    | nil => simp [Text.splitOn_of_not_mem hid.comma, hid.trim_eq]
    | cons next ids =>
      have hjoin : (Text.joinWith ", " (id :: next :: ids)).toList =
          id.toList ++ ',' :: ' ' :: (Text.joinWith ", " (next :: ids)).toList := by
        simp [String.toList_append]
      rw [hjoin, Text.splitOn_append hid.comma, List.map_cons,
        Text.map_trim_splitOn_cons (by decide) (by decide),
        ih (List.cons_ne_nil _ _) hlater, hid.trim_eq]
      rfl

/-- The names of the rules are the items of the list without blanks, as far as they are not empty.
-/
private theorem map_id_rulesOf (p : Position) (items : List (List Char)) :
    (rulesOf p items).map DirectiveRule.id =
      ((items.map Text.trim).filter fun id => !id.isEmpty).map String.ofList := by
  induction items generalizing p with
  | nil => rfl
  | cons item items ih =>
    by_cases hitem : (Text.trim item).isEmpty = true
    · simp [rulesOf, hitem, ih]
    · simp [rulesOf, hitem, ih]

/-- The rules that are read from a printed list are those that were written. -/
private theorem map_id_rulesOf_joinWith {ids : List String} (hids : ∀ id ∈ ids, IsRuleId id)
    (p : Position) :
    (rulesOf p (Text.splitOn ',' (Text.joinWith ", " ids).toList)).map DirectiveRule.id = ids := by
  rw [map_id_rulesOf]
  cases ids with
  | nil => rfl
  | cons id ids =>
    have hall : ∀ cs ∈ (id :: ids).map String.toList, (!cs.isEmpty) = true := by
      intro cs hcs
      obtain ⟨name, hname, rfl⟩ := List.mem_map.mp hcs
      simpa using (hids name hname).ne_nil
    rw [map_trim_splitOn (List.cons_ne_nil _ _) hids, List.filter_eq_self.mpr hall, List.map_map]
    refine (List.map_congr_left fun name _ => ?_).trans (List.map_id _)
    exact String.ofList_toList

/-! ## Reading the body -/

/-- A blank cannot stand in the name of an action. -/
private theorem isActionChar_of_isBlank {c : Char} (h : Text.isBlank c = true) :
    isActionChar c = false :=
  Text.eq_false_of_isBlank (by decide +kernel) h

/-- A single blank is blank. -/
private theorem isBlank_of_mem_singleton : ∀ c ∈ [' '], Text.isBlank c = true :=
  List.forall_mem_singleton.mpr (by decide)

/-- A directive does not begin with a blank. -/
private theorem stops_opening (cs : List Char) :
    Text.Stops Text.isBlank (opening.toList ++ cs) := by
  have hfirst : opening.toList.head? = some '[' := by decide +kernel
  intro c hc
  rw [List.head?_append, hfirst, Option.some_or, Option.mem_some_iff] at hc
  subst hc
  decide

/-- The parts of a body are found if each of them ends where the next one begins. -/
theorem ofBody?_append {lead action gap rules after : List Char}
    (hlead : ∀ c ∈ lead, Text.isBlank c = true) (hne : action ≠ [])
    (haction : ∀ c ∈ action, isActionChar c = true) (hgap : ∀ c ∈ gap, Text.isBlank c = true)
    (hrules : ∀ c ∈ rules, c ≠ ']' ∧ c ≠ ':') (hfirst : Text.Stops Text.isBlank rules)
    (hgapped : rules ≠ [] → gap ≠ []) (hafter : Text.Stops (fun c => c != ']' && c != ':') after)
    (hends : endsWell after = true) :
    ofBody? (lead ++ (opening.toList ++ (action ++ (gap ++ (rules ++ after))))) =
      some ⟨action, lead ++ opening.toList ++ action ++ gap, rules⟩ := by
  -- what comes after the rules cannot be taken for something else
  obtain ⟨c, rest, rfl, hc⟩ : ∃ c rest, after = c :: rest ∧ (c = ']' ∨ c = ':') := by
    cases after with
    | nil => cases hends
    | cons c rest =>
      have hmark := hafter c rfl
      simp only [Bool.and_eq_false_iff, bne_eq_false_iff_eq] at hmark
      exact ⟨c, rest, rfl, hmark⟩
  have hblank : Text.isBlank c = false ∧ isActionChar c = false := by
    obtain rfl | rfl := hc <;> decide
  have hafterLead := stops_opening (action ++ (gap ++ (rules ++ c :: rest)))
  have hafterGap : Text.Stops Text.isBlank (rules ++ c :: rest) := by
    cases rules with
    | nil => exact .cons hblank.1
    | cons d rules => exact hfirst.append (List.cons_ne_nil _ _) _
  have hafterAction : Text.Stops isActionChar (gap ++ (rules ++ c :: rest)) := by
    cases gap with
    | cons d gap => exact .cons (isActionChar_of_isBlank (hgap d (List.mem_cons_self ..)))
    | nil =>
      have hnone : rules = [] := Classical.not_not.mp (mt hgapped (by simp))
      subst hnone
      exact .cons hblank.2
  have hinList : ∀ d ∈ rules, (!gap.isEmpty && d != ']' && d != ':') = true := by
    intro d hd
    have hgap' : gap ≠ [] := hgapped (List.ne_nil_of_mem hd)
    simp [hgap', hrules d hd]
  have hlist : Text.Stops (fun d => !gap.isEmpty && d != ']' && d != ':') (c :: rest) :=
    .cons (by obtain rfl | rfl := hc <;> simp)
  have hstarts : Text.startsWith (opening.toList ++ (action ++ (gap ++ (rules ++ c :: rest))))
      opening = true :=
    List.isPrefixOf_iff_prefix.mpr (List.prefix_append _ _)
  have hdrop : (opening.toList ++ (action ++ (gap ++ (rules ++ c :: rest)))).drop opening.length =
      action ++ (gap ++ (rules ++ c :: rest)) := List.drop_left
  simp only [ofBody?, Text.takeWhile_append_of_stops hlead hafterLead,
    Text.dropWhile_append_of_stops hlead hafterLead,
    hstarts, hdrop, Text.takeWhile_append_of_stops haction hafterAction,
    Text.dropWhile_append_of_stops haction hafterAction,
    Text.takeWhile_append_of_stops hgap hafterGap,
    Text.dropWhile_append_of_stops hgap hafterGap, Text.takeWhile_append_of_stops hinList hlist,
    Text.dropWhile_append_of_stops hinList hlist, hends]
  simp [hne]

/-- What is written after the rules ends the directive well. -/
private theorem endsWell_printRemark {remark : Option String} (h : ∀ r ∈ remark, ']' ∉ r.toList) :
    endsWell ((printRemark remark).toList ++ [']', ' ']) = true := by
  cases remark with
  | none => decide
  | some r =>
    have htext : (printRemark (some r)).toList ++ [']', ' '] =
        ':' :: ' ' :: r.toList ++ [']', ' '] := by
      simp [printRemark, String.toList_append]
    have hall : ∀ c ∈ ':' :: ' ' :: r.toList, (c != ']') = true := by
      have hr := h r rfl
      simp only [List.forall_mem_cons, bne_iff_ne]
      exact ⟨by decide, by decide, fun c hc heq => hr (heq ▸ hc)⟩
    have hstops : Text.Stops (· != ']') [']', ' '] := .cons (by decide)
    have hstarts : Text.startsWith (':' :: ' ' :: r.toList ++ [']', ' ']) ":" = true :=
      List.isPrefixOf_iff_prefix.mpr (List.prefix_append _ _)
    rw [htext]
    simp only [endsWell, hstarts, if_true, Text.dropWhile_append_of_stops hall hstops]
    decide

/-- A list of rules begins with the first of them. -/
private theorem exists_toList_joinWith (id : String) (ids : List String) :
    ∃ more, (Text.joinWith ", " (id :: ids)).toList = id.toList ++ more := by
  cases ids with
  | nil => exact ⟨[], by simp⟩
  | cons next ids =>
    exact ⟨_, by rw [Text.joinWith_cons_cons, String.append_assoc, String.toList_append]⟩

/-- The list of rules does not hold what ends it. -/
private theorem ne_of_mem_joinWith {ids : List String} (hids : ∀ id ∈ ids, IsRuleId id) :
    ∀ c ∈ (Text.joinWith ", " ids).toList, c ≠ ']' ∧ c ≠ ':' := by
  have hid : ∀ id, IsRuleId id → ∀ c ∈ id.toList, c ≠ ']' ∧ c ≠ ':' := by
    rintro id h c hc
    exact ⟨fun heq => h.bracket (heq ▸ hc), fun heq => h.colon (heq ▸ hc)⟩
  induction ids with
  | nil => simp
  | cons id ids ih =>
    obtain ⟨hfirst, hlater⟩ := List.forall_mem_cons.mp hids
    cases ids with
    | nil => exact hid id hfirst
    | cons next ids =>
      intro c hc
      rw [Text.joinWith_cons_cons, String.toList_append, String.toList_append] at hc
      -- a character of the joined names is of a name or of the separator
      obtain (hc | hc) | hc := by simpa only [List.mem_append] using hc
      · exact hid id hfirst c hc
      · obtain rfl | rfl : c = ',' ∨ c = ' ' := by simpa using hc
        · decide
        · decide
      · exact ih hlater c hc

/-- A directive is written as its opening, its action, its rules, its remark and a bracket. -/
private theorem toList_printBody (d : Directive) :
    d.printBody.toList =
      [' '] ++ (opening.toList ++ (d.action.name.toList ++ ((printIds d.ids).toList ++
      ((printRemark d.remark).toList ++ [']', ' '])))) := by
  have hfirst : " [html-validate-".toList = [' '] ++ opening.toList := by decide +kernel
  have hlast : "] ".toList = [']', ' '] := by decide
  unfold printBody
  rw [String.toList_append, String.toList_append, String.toList_append, String.toList_append,
    hfirst, hlast]
  simp only [List.append_assoc]

/-- A directive that is written is read back in its parts. -/
private theorem IsWritable.ofBody?_printBody {d : Directive} (h : d.IsWritable) :
    ∃ before, ofBody? d.printBody.toList =
      some ⟨d.action.name.toList, before, (Text.joinWith ", " d.ids).toList⟩ := by
  -- a blank follows the action only if names follow it
  let gap := if d.ids.isEmpty then [] else [' ']
  have hprint : (printIds d.ids).toList = gap ++ (Text.joinWith ", " d.ids).toList := by
    cases hids : d.ids <;> simp [printIds, gap, hids, String.toList_append]
  have haction : d.action.name.toList ≠ [] ∧ d.action.name.toList.all isActionChar = true := by
    cases d.action <;> decide
  have hgap : ∀ c ∈ gap, Text.isBlank c = true := by
    cases hids : d.ids with
    | nil => simp [gap, hids]
    | cons id ids => simpa [gap, hids] using isBlank_of_mem_singleton
  -- the names begin with no blank, so all of the gap is skipped and nothing else
  have hfirst : Text.Stops Text.isBlank (Text.joinWith ", " d.ids).toList := by
    cases hids : d.ids with
    | nil => exact .nil
    | cons id ids =>
      have hid : IsRuleId id := h.ids id (by simp [hids])
      obtain ⟨more, hmore⟩ := exists_toList_joinWith id ids
      rw [hmore]
      refine Text.Stops.append ?_ hid.ne_nil more
      intro c hc
      have hblank := hid.first
      rwa [Option.mem_def.mp hc] at hblank
  have hgapped : (Text.joinWith ", " d.ids).toList ≠ [] → gap ≠ [] := by
    cases hids : d.ids <;> simp [gap, hids]
  -- a remark begins with `:`, and otherwise `]` comes at once
  have hafter :
      Text.Stops (fun c => c != ']' && c != ':') ((printRemark d.remark).toList ++ [']', ' ']) := by
    cases d.remark with
    | none => exact .cons (by decide)
    | some r =>
      rw [printRemark, String.toList_append]
      exact .cons (by decide)
  rw [toList_printBody, hprint, List.append_assoc gap]
  exact ⟨_, ofBody?_append isBlank_of_mem_singleton haction.1 (List.all_eq_true.mp haction.2) hgap
    (ne_of_mem_joinWith h.ids) hfirst hgapped hafter (endsWell_printRemark h.remark)⟩

/-- A comment that a directive is written as says what was meant. -/
private theorem IsWritable.event?_print {d : Directive} (h : d.IsWritable) (parent : NodeId)
    (l : Location) :
    ∃ rules, event? ⟨.comment, d.print, l⟩ parent = some (.directive d.action rules parent l) ∧
      rules.map DirectiveRule.id = d.ids := by
  obtain ⟨before, hparts⟩ := h.ofBody?_printBody
  have hbody : Token.commentBody ⟨.comment, d.print, l⟩ = d.printBody.toList :=
    congrArg Prod.snd (Token.commentParts_full .comment d.printBody l)
  have hlooks : Text.startsWith (Text.trimStart d.printBody.toList) opening = true := by
    rw [toList_printBody, Text.trimStart,
      Text.dropWhile_append_of_stops isBlank_of_mem_singleton (stops_opening _)]
    exact List.isPrefixOf_iff_prefix.mpr (List.prefix_append _ _)
  refine ⟨rulesOf (l.toPosition.advance (lead ⟨.comment, d.print, l⟩ ++ before))
    (Text.splitOn ',' (Text.joinWith ", " d.ids).toList), ?_, map_id_rulesOf_joinWith h.ids _⟩
  simp only [event?, hbody, hlooks, if_true, hparts, String.ofList_toList,
    DirectiveAction.ofName?_name]

end Directive

/-! ## Reading the comment -/

/-- The first `-->` is the one after the body, if there is none in the body and the body does not
begin one. -/
private theorem Text.breakAt_comment {body : List Char} (hbody : ¬ "-->".toList <:+: body)
    (hlast : body.getLast? ≠ some '-') :
    Text.breakAt (Text.startsWith · "-->") (body ++ "-->".toList) = (body, "-->".toList) := by
  refine Text.breakAt_eq (.inr (by decide)) fun x c y hsplit => ?_
  rw [← Bool.not_eq_true]
  intro hstarts
  have hmark : "-->".toList = ['-', '-', '>'] := by decide
  have hprefix : "-->".toList <+: c :: y ++ "-->".toList := List.isPrefixOf_iff_prefix.mp hstarts
  rw [hmark] at hprefix hbody
  -- a `-->` that begins in the body ends in it or goes on after a dash at its end
  match y, hprefix with
  | [], hprefix =>
    obtain ⟨rfl, -⟩ := List.cons_prefix_cons.mp hprefix
    exact hlast (by simp [hsplit])
  | [e], hprefix =>
    obtain ⟨-, hprefix⟩ := List.cons_prefix_cons.mp hprefix
    obtain ⟨rfl, -⟩ := List.cons_prefix_cons.mp hprefix
    exact hlast (by simp [hsplit])
  | e :: f :: y, hprefix =>
    have hinside : ['-', '-', '>'] <+: c :: e :: f :: y :=
      List.prefix_of_prefix_length_le hprefix (List.prefix_append _ _) (by simp)
    have hsuffix : c :: e :: f :: y <:+ body := ⟨x, hsplit.symm⟩
    exact hbody (hinside.isInfix.trans hsuffix.isInfix)

/-- A source that is a full comment has one token. -/
private theorem tokenize_comment {body : String} (hbody : ¬ "-->".toList <:+: body.toList)
    (hlast : body.toList.getLast? ≠ some '-') :
    let source := "<!--" ++ body ++ "-->"
    tokenize source = ⟨[⟨.comment, source, .covering .start source.toList⟩], none⟩ := by
  intro source
  have hsource : source.toList = "<!--".toList ++ body.toList ++ "-->".toList := by
    simp [source, String.toList_append]
  -- three turns: into the comment, over it, and the end
  have hskip : Scanner.turn (.ofSource source.toList) =
      .skip ⟨.start, source.toList, .comment⟩ := by
    rw [hsource]
    rfl
  have hcut : Scanner.Cut .start .comment [] .comment source.toList [] [] .text := by
    rw [hsource]
    exact .comment (by simpa using Text.breakAt_comment hbody hlast)
  have htoken := hcut.turn_eq_of_lead rfl
  simp only [List.nil_append, List.append_nil, String.ofList_toList] at htoken
  have hend : Scanner.turn ⟨Position.start.advance source.toList, [], .text⟩ = .finished := rfl
  show Scanner.run (.ofSource source.toList) = _
  rw [Scanner.run_of_skip hskip, Scanner.run_of_token htoken, Scanner.run_of_finished hend]
  rfl

/-! ## Reading a directive back -/

/-- A directive is written with a blank at its end. -/
private theorem Directive.getLast?_printBody (d : Directive) :
    d.printBody.toList.getLast? = some ' ' := by
  rw [toList_printBody]
  simp only [← List.append_assoc]
  rw [List.getLast?_append]
  rfl

/-- Building the document of a comment tells of what the comment says, and of nothing else. -/
private theorem Construction.record_comment {t : Token} {e : Event} (hkind : t.kind = .comment)
    (hevent : Directive.event? t rootId = some e) (v : Vocabulary) (length : Nat) :
    (record v [t] length).2.map Moment.event = [.domLoad, e, .domReady] := by
  have hcurrent : (Construction.ofLength length).start.1.current = rootId := rfl
  rw [record_eq]
  simp only [takeIn, push_eq, step_eq, hkind, hcurrent, hevent]
  rfl

/-- A directive that can be written is read back from its written form: its document begins, the
directive is told of with its action and its rules, and the document ends. -/
theorem parse_print_directive (v : Vocabulary) {d : Directive} (h : d.IsWritable) :
    ∃ document rules, rules.map DirectiveRule.id = d.ids ∧
      parse v d.print = .ok (document,
        [.domLoad, .directive d.action rules rootId
          (.covering .start d.print.toList), .domReady]) := by
  have hlast : d.printBody.toList.getLast? ≠ some '-' := by
    rw [d.getLast?_printBody]
    decide
  have htokens : tokenize d.print =
      ⟨[⟨.comment, d.print, .covering .start d.print.toList⟩], none⟩ :=
    tokenize_comment h.body hlast
  obtain ⟨rules, hevent, hrules⟩ := h.event?_print rootId (.covering .start d.print.toList)
  refine ⟨(Construction.record v (tokenize d.print).tokens (byteLength d.print.toList)).1,
    rules, hrules, ?_⟩
  rw [parse_eq (by rw [htokens]) v]
  simp only [htokens, Construction.record_comment rfl hevent]

/-- Two rules, of which one has a blank in it, and a remark that looks like more of them. -/
theorem parse_print_directive_block :
    let d : Directive := ⟨.disableBlock, ["void", "ü x"], some "a, b: [--"⟩
    d.print = "<!-- [html-validate-disable-block void, ü x: a, b: [--] -->" ∧ d.IsWritable ∧
    ∃ document rules, rules.map DirectiveRule.id = ["void", "ü x"] ∧
      parse ⟨.empty⟩ d.print = .ok (document,
        [.domLoad, .directive .disableBlock rules rootId
          (.covering .start d.print.toList), .domReady]) := by
  intro d
  have hd : d.IsWritable := by decide +kernel
  exact ⟨by decide +kernel, hd, parse_print_directive ⟨.empty⟩ hd⟩

end HtmlLint
