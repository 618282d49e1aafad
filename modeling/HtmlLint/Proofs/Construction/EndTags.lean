import HtmlLint.Proofs.Construction.Ledger
import HtmlLint.Proofs.Construction.Ranges
import HtmlLint.Proofs.Construction.Tags

/-!
# What an end tag does

An end tag belongs to the innermost open element of its name, up to ASCII case.  It closes this
element where the tag ends, and before that all elements that are open inside of it where the tag
begins.  If there is no such element, the end tag changes nothing and is an error.
`endTag_closes_innermost` says this of every end tag of every source.

That elements end exactly at the end tag depends on the order of the tokens: an element does not end
before its start tag does, but the start tags of open elements all end before the end tag begins
(`Document.NestsBefore`).
-/

namespace HtmlLint

namespace Construction

variable {v : Vocabulary} {c : Construction} {name : String}

/-- What is said about an end tag to which no open element belongs. -/
def endTagError (v : Vocabulary) (name : String) (location : Location) (c : Construction) : Event :=
  if c.openElements = [] ∨ (v.find? name).any (·.void) = true then
    .parseError (.strayEndTag name) none location
  else .parseError (.mismatchedClose (c.document.node c.current).tag name) (some c.current) location

/-- The events of closing an element that is open inside of the one that an end tag belongs to. -/
def eventsInside (v : Vocabulary) (name : String) (location : Location) (d : Document)
    (id : NodeId) : List Event :=
  (if hasOptionalEnd v (d.node id) then []
    else [.parseError (.mismatchedClose (d.node id).tag name) (some id) location]) ++
    [.tagClose id none .implicit location, .elementReady id location]

/-! ## Finding the element -/

/-- No open element has the name, or there is an innermost one. -/
private theorem missing_or_innermost (name : String) (c : Construction) :
    ((∀ id ∈ c.openElements, isCalled name (c.document.node id) = false) ∧
      c.openElements.dropWhile (fun id => !isCalled name (c.document.node id)) = []) ∨
    ∃ inner found outer, c.openElements = inner ++ found :: outer ∧
      (∀ id ∈ inner, isCalled name (c.document.node id) = false) ∧
      isCalled name (c.document.node found) = true ∧
      c.openElements.takeWhile (fun id => !isCalled name (c.document.node id)) = inner ∧
      c.openElements.dropWhile (fun id => !isCalled name (c.document.node id)) =
        found :: outer := by
  have hinner : ∀ id ∈ c.openElements.takeWhile (fun id => !isCalled name (c.document.node id)),
      isCalled name (c.document.node id) = false := by
    intro id hid
    simpa using List.all_eq_true.mp List.all_takeWhile id hid
  have hsplit :=
    List.takeWhile_append_dropWhile (p := fun id => !isCalled name (c.document.node id))
      (l := c.openElements)
  -- what `takeWhile` leaves over decides: nothing, or a list that starts with the element
  cases hfound : c.openElements.dropWhile fun id => !isCalled name (c.document.node id) with
  | nil =>
    left
    rw [hfound, List.append_nil] at hsplit
    rw [hsplit] at hinner
    exact ⟨hinner, rfl⟩
  | cons found outer =>
    right
    rw [hfound] at hsplit
    have hcalled :=
      List.head?_dropWhile_not (fun id => !isCalled name (c.document.node id)) c.openElements
    rw [hfound] at hcalled
    exact ⟨_, found, outer, hsplit.symm, hinner, by simpa using hcalled, rfl, rfl⟩

/-- An end tag to which nothing belongs changes nothing. -/
private theorem closeTag_of_missing
    (h : c.openElements.dropWhile (fun id => !isCalled name (c.document.node id)) = [])
    (location : Location) :
    c.closeTag v name location = (c, [⟨c.endTagError v name location, c.document⟩]) := by
  simp only [closeTag_eq, h, mismatch, endTagError, current]
  cases c.openElements with
  | nil => simp
  | cons top left => cases (v.find? name).any (·.void) <;> simp

/-! ## Closing elements -/

/-- The elements inside of the one that an end tag belongs to are closed one after the other, each
after an error if its end tag may not be left out. -/
private theorem closeAll_closingInside_events (location : Location) (ids : List NodeId)
    (d : Document) :
    (closeAll (closingInside v name location) ids d).2.map Moment.event =
      ids.flatMap (eventsInside v name location d) := by
  rw [closeAll_events fun n n' hn => closingInside_eq hn.resembles name location]
  unfold closingEvents
  congr 1
  funext id
  simp only [closingInside, closingWithoutEnd, Closing.events, eventsInside]
  split <;> rfl

/-- A node that ends before the place where it is closed is closed there. -/
private theorem map_closed_eq {d : Document} {id : Nat} (hid : id < d.size) (kind : CloseKind)
    {stop : Nat} (hstop : ∀ n, d.get? id = some n → n.location.stop ≤ stop) :
    ((d.get? id).map fun n =>
      { n with closed := some kind, endOffset := some (max stop n.location.stop) }) =
      some { d.node id with closed := some kind, endOffset := some stop } := by
  obtain ⟨n, hn⟩ := Document.exists_get?_of_lt hid
  rw [hn, Option.map_some, Document.node_of_get? hn, Nat.max_eq_left (hstop n hn)]

/-- What an end tag does to the document and to the open elements, if there is an element that it
belongs to and all open elements have started before it. -/
private theorem closeTag_of_innermost (hsound : c.stage.Sound) (location : Location)
    (hstart : ∀ id ∈ c.openElements, ∀ n, c.document.get? id = some n →
      n.location.stop ≤ location.offset)
    {inner outer : List NodeId} {found : NodeId} (hsplit : c.openElements = inner ++ found :: outer)
    (hinner : c.openElements.takeWhile (fun id => !isCalled name (c.document.node id)) = inner)
    (hfound : c.openElements.dropWhile (fun id => !isCalled name (c.document.node id)) =
      found :: outer) :
    let done := c.closeTag v name location
    done.1.openElements = outer ∧
    done.2.map Moment.event = inner.flatMap (eventsInside v name location c.document) ++
      [.tagClose found none .explicit location, .elementReady found location] ∧
    (∀ id ∈ inner, done.1.document.get? id =
      some { c.document.node id with
        closed := some .implicit, endOffset := some location.offset }) ∧
    done.1.document.get? found =
      some { c.document.node found with
        closed := some .explicit, endOffset := some location.stop } ∧
    ∀ i, i ∉ inner → i ≠ found → done.1.document.get? i = c.document.get? i := by
  intro done
  have hmem : ∀ id ∈ inner, id ∈ c.openElements := by
    intro id hid
    rw [hsplit]
    exact List.mem_append_left _ hid
  have hlast : found ∈ c.openElements := by simp [hsplit]
  -- each open element is there once
  have hnew : found ∉ inner := by
    have hdecreasing := hsound.decreasing
    simp only [stage, hsplit, List.pairwise_append] at hdecreasing
    intro hmem
    exact Nat.lt_irrefl _ (hdecreasing.2.2 found hmem found (List.mem_cons_self ..))
  have hdone := closeTag_of_found (v := v) hfound location
  rw [hinner] at hdone
  have hget : ∀ i : Nat, done.1.document.get? i = if found = i then
      ((closeAll (closingInside v name location) inner c.document).1.get? i).map fun n =>
        { n with closed := some .explicit, endOffset := some (max location.stop n.location.stop) }
      else (closeAll (closingInside v name location) inner c.document).1.get? i := by
    intro i
    simp only [done, hdone]
    exact Document.get?_close ..
  have hinside :=
    get?_closeAll (closingInside v name location) (fun _ => rfl) (fun _ => rfl) inner c.document
  refine ⟨?_, ?_, ?_, ?_, ?_⟩
  · simp only [done, hdone]
  · simp only [done, hdone, List.map_append, closeAll_closingInside_events]
    rfl
  · intro id hid
    have hne : found ≠ id := fun heq => hnew (heq ▸ hid)
    rw [hget, if_neg hne, hinside, if_pos hid]
    exact map_closed_eq (hsound.lt_size (hmem id hid)) .implicit (hstart id (hmem id hid))
  · rw [hget, if_pos rfl, hinside, if_neg hnew]
    apply map_closed_eq (hsound.lt_size hlast) .explicit
    intro n hn
    have hle := hstart found hlast n hn
    have hlater : location.offset ≤ location.stop := Nat.le_add_right ..
    omega
  · intro i hi hne
    rw [hget, if_neg (Ne.symm hne), hinside, if_neg hi]

end Construction

/-! ## End tags of a source -/

open Construction

/-- Every end tag of every source, whether or not the source can be cut up to its end.  Up to the
end of the tag nothing happens.  If no open element has its name, up to ASCII case, then nothing
changes and there is one error: a stray end tag if nothing is open or the name is that of a void
element, or else a mismatch with the current element.  Otherwise the innermost open element of the
name is closed where the tag ends, after all elements that are open inside of it: these are closed
where the tag begins, from the innermost on, with a mismatch before each that needs an end tag of
its own.  What is open around the element stays open, and no other node changes. -/
theorem endTag_closes_innermost (v : Vocabulary) {source : String}
    {before attributes after : List Token} {first last : Token}
    (htokens : (tokenize source).tokens = before ++ first :: (attributes ++ last :: after))
    (htag : Token.IsTag first attributes last) (hend : first.isEndTag = true) :
    let c := (takeIn v before (.ofLength (byteLength source.toList))).1
    let waiting := takeIn v (first :: attributes) c
    let done := waiting.1.push v last
    let name := first.tagName
    let place := first.location.extendTo last.location
    (waiting.1.document = c.document ∧ waiting.1.openElements = c.openElements ∧
      waiting.2 = c.start.2) ∧
    (((∀ id ∈ c.openElements, isCalled name (c.document.node id) = false) ∧
        done.1.document = c.document ∧ done.1.openElements = c.openElements ∧
        done.2 = [⟨c.endTagError v name place, c.document⟩]) ∨
      ∃ inner found outer, c.openElements = inner ++ found :: outer ∧
        (∀ id ∈ inner, isCalled name (c.document.node id) = false) ∧
        isCalled name (c.document.node found) = true ∧
        done.1.openElements = outer ∧
        done.2.map Moment.event = inner.flatMap (eventsInside v name place c.document) ++
          [.tagClose found none .explicit place, .elementReady found place] ∧
        (∀ id ∈ inner, done.1.document.get? id =
          some { c.document.node id with
            closed := some .implicit, endOffset := some first.location.offset }) ∧
        done.1.document.get? found =
          some { c.document.node found with
            closed := some .explicit, endOffset := some last.location.stop } ∧
        ∀ i, i ∉ inner → i ≠ found → done.1.document.get? i = c.document.get? i) := by
  intro c waiting done name place
  have htiles := tokenize_tileFrom source
  rw [htokens] at htiles
  obtain ⟨inTag, r, k, ms, hcourse, hpaced, hrest, -⟩ :=
    takeIn_course v (Paced.ofLength source.toList (byteLength source.toList)) htiles
  obtain ⟨-, -, hfirst, hlater⟩ := hrest.cons
  -- the tag goes from the beginning of its first token to the end of its last one
  have hoffset : place.offset = first.location.offset := Location.offset_extendTo ..
  have hstop : place.stop = last.location.stop := by
    apply Location.stop_extendTo
    have hle := hlater.le_offset
    have hsize : last.location.offset ≤ last.location.stop := Nat.le_add_right ..
    omega
  have hwaiting : waiting =
      ({ c with pending := some (.closing name first.location), started := true }, c.start.2) :=
    takeIn_endTag hend htag.attributes_kind
  have hdone : done = ({ c with pending := none, started := true } : Construction).closeTag
      v name place := by
    simp only [done, hwaiting]
    exact push_of_closing rfl rfl htag.last_kind
  refine ⟨by rw [hwaiting]; exact ⟨rfl, rfl, rfl⟩, ?_⟩
  obtain ⟨hmissing, hnone⟩ | ⟨inner, found, outer, hsplit, hinner, hfound, htake, hdrop⟩ :=
    missing_or_innermost name c
  · left
    rw [hdone, closeTag_of_missing (c := { c with pending := none, started := true }) hnone]
    exact ⟨hmissing, rfl, rfl, rfl⟩
  · right
    -- what is known of the nodes lies before the tag
    have hstart : ∀ id ∈ c.openElements, ∀ n, c.document.get? id = some n →
        n.location.stop ≤ place.offset := by
      intro id hid n hn
      have hextends := hcourse.nests.nests.extends_to hn (hpaced.ready.sound.ne_root hid)
      have hle := Nat.le_trans hextends.stop_le (Nat.le_trans hpaced.reached_le hfirst.le_offset)
      rwa [hoffset]
    have hclosed :=
      closeTag_of_innermost (c := { c with pending := none, started := true }) (v := v)
      hpaced.ready.sound place hstart hsplit htake hdrop
    rw [← hdone, hoffset, hstop] at hclosed
    exact ⟨inner, found, outer, hsplit, hinner, hfound, hclosed⟩

/-- In the list below, an end tag in other letters closes the list with what is open in it: the item
silently, since its end tag may be left out, and the bold text after an error. -/
theorem endTag_closes_innermost_list :
    let source := "<ul><li><b>x</UL a=1>y"
    let ts := (tokenize source).tokens
    let v : Vocabulary := ⟨.ofList [("li", { (default : ElementModel) with optionalEnd := true })]⟩
    let first := ts.getD 7 default
    let attributes := (ts.drop 8).take 2
    let last := ts.getD 10 default
    let place := first.location.extendTo last.location
    let c := (takeIn v (ts.take 7) (.ofLength (byteLength source.toList))).1
    let done := (takeIn v (first :: attributes) c).1.push v last
    ts = ts.take 7 ++ first :: (attributes ++ last :: ts.drop 11) ∧
    Token.IsTag first attributes last ∧
    first.isEndTag = true ∧ first.tagName = "UL" ∧ c.openElements = [3, 2, 1] ∧
    ∃ inner found outer, c.openElements = inner ++ found :: outer ∧ done.1.openElements = outer ∧
      done.2.map Moment.event = inner.flatMap (eventsInside v first.tagName place c.document) ++
        [.tagClose found none .explicit place, .elementReady found place] ∧
      ∀ id ∈ inner, done.1.document.get? id =
        some { c.document.node id with
          closed := some .implicit, endOffset := some first.location.offset } := by
  intro source ts v first attributes last place c done
  have htokens : ts = ts.take 7 ++ first :: (attributes ++ last :: ts.drop 11) := by decide +kernel
  have htag : Token.IsTag first attributes last :=
    ⟨by decide +kernel, by decide +kernel, by decide +kernel⟩
  have hend : first.isEndTag = true := by decide +kernel
  have hopen : c.openElements = [3, 2, 1] := by decide +kernel
  have hlist : isCalled first.tagName (c.document.node 1) = true := by decide +kernel
  refine ⟨htokens, htag, hend, by decide +kernel, hopen, ?_⟩
  obtain ⟨-, ⟨hmissing, -⟩ | hclosed⟩ := endTag_closes_innermost v htokens htag hend
  · -- the list is open, so the end tag does belong to an element
    have hnot := hmissing 1 (by show 1 ∈ c.openElements; rw [hopen]; decide)
    exact absurd (hlist.symm.trans hnot) (by decide)
  · obtain ⟨inner, found, outer, hsplit, -, -, houter, hevents, hinner, -⟩ := hclosed
    exact ⟨inner, found, outer, hsplit, houter, hevents, hinner⟩

end HtmlLint
