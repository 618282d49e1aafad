import HtmlLint.Proofs.Token.Cut

/-!
# The scanner comes to an end

Some turns of the scanner read nothing: raw text is left for text, and text for a tag, a comment or
a doctype.  Others read and yield nothing: the beginning of a tag before its name, and a slash in a
tag.  `Turn.Advances` says that every turn of a scanner on its way through a source does one of
three things: it yields something, it reads on, or it goes down from raw text to text to markup.  So
a call of `Scanner.next` takes no more turns than the bytes it reads and three
(`Scanner.next_turns`).

Calling `Scanner.next` again and again gives the tokens one after the other, then the fault if there
is one, and then nothing for ever: `Scanner.reading_eq`.
-/

namespace HtmlLint

/-- A text that is not empty has bytes. -/
private theorem byteLength_pos {cs : List Char} (h : cs ≠ []) : 0 < byteLength cs := by
  obtain ⟨c, cs, rfl⟩ := List.exists_cons_of_ne_nil h
  rw [byteLength_cons]
  exact Nat.add_pos_left c.utf8Size_pos _

/-! ## Turns -/

/-- The modes that can be entered or left without reading, from markup up to raw text. -/
def ScanMode.height? : ScanMode → Option Nat
  | .rawText _ => some 2
  | .text => some 1
  | .tagOpen | .comment | .doctype => some 0
  | .tagName _ | .attributeName _ | .attributeValue _ | .failed => none

/-- Raw text is above text, and text is above markup. -/
def ScanMode.IsBelow (mode above : ScanMode) : Prop :=
  ∃ i j, mode.height? = some i ∧ above.height? = some j ∧ i < j

/-- How far the source has been read.  This is beyond the position of the scanner if something has
been read of the next token. -/
def Scanner.reached (s : Scanner) : Position :=
  s.position.advance s.mode.lead

/-- A turn that yields a token reads on.  One that yields nothing reads on, or stays where it is and
goes down to a lower mode. -/
def Turn.Advances (s : Scanner) : Turn → Prop
  | .token _ s' => s.reached.offset < s'.reached.offset
  | .skip s' => s.reached.offset < s'.reached.offset ∨
      (s'.reached = s.reached ∧ s'.rest = s.rest ∧ s'.mode.IsBelow s.mode)
  | .fault _ | .finished => True

/-- What a call of `Scanner.next` gives whose last turn this is; a turn that yields nothing is not
the last. -/
def Turn.outcome? (s : Scanner) : Turn → Option (Reading × Scanner)
  | .token t s' => some (.token t, s')
  | .skip _ => none
  | .fault e => some (.fault e, s.expect .failed)
  | .finished => some (.none, s)

namespace Scanner

variable {source : List Char} {s s' : Scanner}

/-- The states of a scanner on its way through a source, turn by turn, and after a fault. -/
inductive IsReached (source : List Char) : Scanner → Prop where
  | start : IsReached source (.ofSource source)
  | turn {s s' : Scanner} (h : IsReached source s) (hturn : s.turn.next? = some s') :
    IsReached source s'
  | fault {s : Scanner} {e : ScanError} (h : IsReached source s) (hturn : s.turn = .fault e) :
      IsReached source (s.expect .failed)

/-- So many turns without a token lead from one state to the other. -/
inductive Skips : Nat → Scanner → Scanner → Prop where
  | none (s : Scanner) : Skips 0 s s
  | turn {n : Nat} {s s' s'' : Scanner} (hturn : s.turn = .skip s') (h : Skips n s' s'') :
    Skips (n + 1) s s''

/-- A state that the scanner reaches is one in which it knows what comes next, unless it has failed.
-/
private theorem IsReached.poised (h : s.IsReached source) : s.Poised ∨ s.mode = .failed := by
  induction h with
  | start => exact .inl trivial
  | turn _ hturn ih =>
    obtain hs | hm := ih
    · exact .inl (turn_poised hs hturn)
    · simp [Scanner.turn, hm, Turn.next?] at hturn
  | fault => exact .inr rfl

/-- Where nothing has been read of the next token, the source has been read up to the scanner's
position. -/
private theorem reached_eq (h : s.mode.lead = []) : s.reached = s.position := by
  rw [reached, h, Position.advance_nil]

/-- Going on by a text that is not empty leads to a later byte. -/
private theorem offset_lt_of_advance {p : Position} {taken : List Char} (hne : taken ≠ []) :
    p.offset < (p.advance taken).offset := by
  have hpos := byteLength_pos hne
  rw [Position.offset_advance]
  omega

/-- A turn without a token reads something of a tag, or goes down to a lower mode. -/
private theorem advances_of_skip (hs : s.Poised) (h : s.turn = .skip s') :
    (s.reached.offset < s'.reached.offset ∧ s.mode.height?.getD 0 = 0 ∧
      s'.mode.height?.getD 0 = 0) ∨
      (s' = s.expect s'.mode ∧ s'.mode.lead = [] ∧ s'.mode.IsBelow s.mode) := by
  have hs' : s'.Poised := hs.skip h
  rw [reached_eq (lead_of_skip h)]
  obtain ⟨hm, -, hnext⟩ | ⟨name, hm, rfl, -⟩ | ⟨tag, gap, w, hm, -, -, -, rfl⟩
      | ⟨lead, w, hm, -, rfl⟩ :=
    turn_skip_cases h
  · refine .inr ?_
    obtain rfl | rfl | rfl := hnext <;> exact ⟨rfl, rfl, 0, 1, rfl, by rw [hm]; rfl, by decide⟩
  · exact .inr ⟨rfl, rfl, 1, 2, rfl, by rw [hm]; rfl, by decide⟩
  · have hlt : s.position.offset < (s.position.advance (gap ++ ['/'])).offset :=
      offset_lt_of_advance (by simp)
    exact .inl ⟨hlt, by rw [hm]; rfl, rfl⟩
  · obtain ⟨closing, c, cs, -, rfl, -⟩ := hs'
    have hne : (if closing then ['<', '/'] else ['<']) ≠ [] := by cases closing <;> simp
    exact .inl ⟨offset_lt_of_advance hne, by rw [hm]; rfl, rfl⟩

/-- Every turn on the way through a source yields something, reads on or goes down. -/
private theorem IsReached.advances (h : s.IsReached source) : s.turn.Advances s := by
  cases hturn : s.turn with
  | token t s' =>
    have hpoised : s.Poised := h.poised.resolve_right fun hm => by simp [Scanner.turn, hm] at hturn
    obtain ⟨gap, after, hahead, hcut⟩ := turn_makesCut hpoised hturn
    -- beyond what has been read of it, the token has something more
    obtain ⟨more, hne, htext⟩ := hcut.exists_more
    have heq := hcut.turn_eq
    rw [← hahead, before_ahead, hturn, Turn.token.injEq] at heq
    have hpos := byteLength_pos hne
    have hend : s'.reached.offset =
        s.position.offset + byteLength (gap ++ t.text.toList ++ after) := by
      rw [reached_eq hcut.lead_next, heq.2, Position.offset_advance]
    show s.reached.offset < s'.reached.offset
    rw [hend, htext, reached, Position.offset_advance]
    simp only [byteLength_append]
    omega
  | skip s' =>
    have hpoised : s.Poised := h.poised.resolve_right fun hm => by simp [Scanner.turn, hm] at hturn
    obtain ⟨hlt, -⟩ | ⟨hexpect, hlead, hbelow⟩ := advances_of_skip hpoised hturn
    · exact .inl hlt
    · refine .inr ⟨?_, by rw [hexpect]; rfl, hbelow⟩
      rw [reached_eq hlead, reached_eq (lead_of_skip hturn), hexpect]
      rfl
  | fault e => trivial
  | finished => trivial

/-! ## Calls -/

/-- Turns without a token are paid for by the bytes read and by going down. -/
private theorem offset_add_le_of_skip (hs : s.Poised) (h : s.turn = .skip s') :
    1 + s.reached.offset + s'.mode.height?.getD 0 ≤ s'.reached.offset + s.mode.height?.getD 0 := by
  obtain ⟨hlt, hm, hm'⟩ | ⟨hexpect, hlead, i, j, hi, hj, hlt⟩ := advances_of_skip hs h
  · rw [hm, hm']
    omega
  · have hposition : s'.position = s.position := by rw [hexpect]; rfl
    rw [reached_eq hlead, reached_eq (lead_of_skip h), hposition, hi, hj, Option.getD_some,
      Option.getD_some]
    omega

/-- At most two turns in a row yield nothing. -/
private theorem height_le (mode : ScanMode) : mode.height?.getD 0 ≤ 2 := by
  cases mode <;> simp [ScanMode.height?]

/-- A call makes turns without a token, not many more than the bytes they read, and then a last turn
that decides what it gives. -/
theorem next_turns (hs : s.Poised ∨ s.mode = .failed) :
    ∃ n s', Skips n s s' ∧ n + s.reached.offset ≤ s'.reached.offset + 2 ∧
    s'.turn.outcome? s' = some s.next := by
  -- the height left at the end is what the induction needs to know
  suffices h : ∃ n s', Skips n s s' ∧
      n + s.reached.offset + s'.mode.height?.getD 0 ≤ s'.reached.offset + s.mode.height?.getD 0 ∧
      s'.turn.outcome? s' = some s.next by
    obtain ⟨n, s', hskips, hle, houtcome⟩ := h
    have hheight := height_le s.mode
    exact ⟨n, s', hskips, by omega, houtcome⟩
  fun_induction next s with
  | case1 s t s' hturn => exact ⟨0, s, .none s, by omega, by rw [hturn]; rfl⟩
  | case2 s s' hturn ih =>
    have hpoised : s.Poised := hs.resolve_right fun hm => by simp [turn, hm] at hturn
    obtain ⟨n, s'', hskips, hle, houtcome⟩ := ih (.inl (hpoised.skip hturn))
    have hstep := offset_add_le_of_skip hpoised hturn
    exact ⟨n + 1, s'', .turn hturn hskips, by omega, houtcome⟩
  | case3 s e hturn => exact ⟨0, s, .none s, by omega, by rw [hturn]; rfl⟩
  | case4 s hturn => exact ⟨0, s, .none s, by omega, by rw [hturn]; rfl⟩

/-- After a call the scanner is still on its way or has failed. -/
private theorem IsReached.next (h : s.IsReached source) : s.next.2.IsReached source := by
  fun_induction Scanner.next s with
  | case1 s t s' hturn => exact h.turn (by rw [hturn]; rfl)
  | case2 s s' hturn ih => exact ih (h.turn (by rw [hturn]; rfl))
  | case3 s e hturn => exact h.fault hturn
  | case4 s hturn => exact h

end Scanner

/-! ## All calls -/

/-- What there is to read: the tokens, and the fault after them. -/
def Scan.items (scan : Scan) : List Reading :=
  scan.tokens.map .token ++ scan.failure.toList.map .fault

/-- What the call of this number gives, from zero on. -/
def Scanner.reading (s : Scanner) : Nat → Reading
  | 0 => s.next.1
  | n + 1 => s.next.2.reading n

namespace Scan

variable {scan : Scan} {n : Nat}

/-- The first items are the tokens. -/
private theorem items_getElem? (hn : n < scan.tokens.length) :
    ∃ t, scan.items[n]? = some (.token t) := by
  refine ⟨scan.tokens[n], ?_⟩
  rw [items, List.getElem?_append_left (by simpa using hn)]
  simp [hn]

/-- After the tokens there is one item at most. -/
private theorem items_getElem?_eq_none (hn : scan.tokens.length < n) : scan.items[n]? = none := by
  have hfailure : scan.failure.toList.length ≤ 1 := by cases scan.failure <;> simp
  refine List.getElem?_eq_none ?_
  simp only [items, List.length_append, List.length_map]
  omega

end Scan

namespace Scanner

variable {s : Scanner}

/-- A call takes one item off what there is to read. -/
private theorem next_items (s : Scanner) :
    s.next.1 = s.run.items.head?.getD .none ∧ s.next.2.run.items = s.run.items.tail := by
  fun_induction next s with
  | case1 s t s' hturn =>
    rw [run_of_token hturn]
    exact ⟨rfl, rfl⟩
  | case2 s s' hturn ih =>
    rw [run_of_skip hturn]
    exact ih
  | case3 s e hturn =>
    have hfailed : (s.expect .failed).turn = .finished := rfl
    rw [run_of_fault hturn, run_of_finished hfailed]
    exact ⟨rfl, rfl⟩
  | case4 s hturn =>
    rw [run_of_finished hturn]
    exact ⟨rfl, rfl⟩

/-- The calls give the items in their order, and after them nothing. -/
theorem reading_eq (s : Scanner) (n : Nat) : s.reading n = s.run.items[n]?.getD .none := by
  induction n generalizing s with
  | zero =>
    rw [reading, (next_items s).1, List.head?_eq_getElem?]
  | succ n ih =>
    rw [reading, ih, (next_items s).2, List.getElem?_tail]

/-- Once a call has given no token, the calls after it give nothing. -/
private theorem reading_eq_none {n m : Nat} (h : ∀ t, s.reading n ≠ .token t) (hm : n < m) :
    s.reading m = .none := by
  have hn : s.run.tokens.length ≤ n := by
    refine Nat.le_of_not_lt fun hlt => ?_
    obtain ⟨t, ht⟩ := Scan.items_getElem? hlt
    exact h t (by rw [reading_eq, ht]; rfl)
  rw [reading_eq, Scan.items_getElem?_eq_none (Nat.lt_of_le_of_lt hn hm)]
  rfl

end Scanner

/-- There are no more tokens than bytes, because none is empty. -/
private theorem Token.Tiles.length_le {whole : Prop} {inTag : Bool} {p : Position} {cs : List Char}
    {ts : List Token} (h : Tiles whole inTag p cs ts) : ts.length ≤ byteLength cs := by
  induction ts generalizing inTag p cs with
  | nil => exact Nat.zero_le _
  | cons t ts ih =>
    obtain ⟨gap, later, rfl, -, hne, -, -, hlater⟩ := h
    have hlength := ih hlater
    have hpos := byteLength_pos hne
    rw [List.length_cons, byteLength_append, byteLength_append]
    omega

/-- On its way through a source, every turn of the scanner yields something, reads on, or stays
where it is and goes down from raw text to text or from text to markup.  A call takes at most as
many turns as the bytes it reads and three.  All calls together yield at most as many tokens as the
source has bytes, and then at most one fault, which comes last.  Once a call has given no token, the
calls after it give nothing. -/
theorem reading_comes_to_end (source : String) :
    (∀ s : Scanner, s.IsReached source.toList → s.turn.Advances s ∧
      s.next.2.IsReached source.toList ∧
      ∃ n s', Scanner.Skips n s s' ∧ n + s.reached.offset ≤ s'.reached.offset + 2 ∧
        s'.turn.outcome? s' = some s.next) ∧
    (tokenize source).tokens.length ≤ byteLength source.toList ∧
    (∀ n, (Scanner.ofSource source.toList).reading n = (tokenize source).items[n]?.getD .none) ∧
    ∀ n, (∀ t, (Scanner.ofSource source.toList).reading n ≠ .token t) →
      ∀ m, n < m → (Scanner.ofSource source.toList).reading m = .none := by
  have htiles := Scanner.run_tiles (s := .ofSource source.toList) trivial
  refine ⟨fun s hs => ⟨hs.advances, hs.next, Scanner.next_turns hs.poised⟩,
    htiles.length_le, ?_, ?_⟩
  · exact Scanner.reading_eq _
  · exact fun n hn m hm => Scanner.reading_eq_none hn hm

/-- Raw text that is empty is left for text, and text for the end tag.  After four tokens and a
fault there is nothing. -/
theorem reading_comes_to_end_title :
    let first := Scanner.ofSource "<title></title><!".toList
    let inside := first.next.2.next.2
    inside.IsReached "<title></title><!".toList ∧ inside.turn = .skip (inside.expect .text) ∧
      inside.turn.Advances inside ∧
      (∃ n s', Scanner.Skips n inside s' ∧ s'.turn.outcome? s' = some inside.next) ∧
      first.reading 4 = .fault ⟨.unterminatedComment, ⟨⟨15, 1, 16⟩, 2⟩⟩ ∧
      first.reading 9 = .none := by
  intro first inside
  obtain ⟨hturns, -, -, hover⟩ := reading_comes_to_end "<title></title><!"
  have hreached : inside.IsReached "<title></title><!".toList := Scanner.IsReached.start.next.next
  obtain ⟨hadvances, -, n, s', hskips, -, houtcome⟩ := hturns inside hreached
  obtain ⟨hraw, hfault⟩ : inside.turn = .skip (inside.expect .text) ∧
      first.reading 4 = .fault ⟨.unterminatedComment, ⟨⟨15, 1, 16⟩, 2⟩⟩ := by
    decide +kernel
  have hlast : ∀ t, first.reading 4 ≠ .token t := fun t ht => nomatch hfault.symm.trans ht
  exact ⟨hreached, hraw, hadvances, ⟨n, s', hskips, houtcome⟩, hfault, hover 4 hlast 9 (by decide)⟩

end HtmlLint
