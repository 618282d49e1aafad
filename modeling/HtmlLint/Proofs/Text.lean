import HtmlLint.Proofs.List
import HtmlLint.Text.Blank
import HtmlLint.Text.Case
import HtmlLint.Text.Search

/-!
# Texts

What the modules about tokens and names need to know about characters and texts: capitals and small
letters, where a run of characters stops, where a search stops, and how much of a text has to be
known to tell what it begins with.
-/

namespace HtmlLint.Text

/-! ## Case -/

/-- Only capitals are changed. -/
private theorem toLower_of_not_isUpper {c : Char} (h : c.isUpper = false) : c.toLower = c :=
  dif_neg (of_decide_eq_false h)

/-- There are no capitals left. -/
theorem isUpper_toLower (c : Char) : c.toLower.isUpper = false := by
  unfold Char.toLower
  split
  · rename_i hc
    have hlow : 65 ≤ c.val.toNat := hc.1
    have hhigh : c.val.toNat ≤ 90 := hc.2
    -- a capital moved up by 32 is past the last capital
    apply decide_eq_false
    rintro ⟨-, hup⟩
    have hval : (c.val + 32).toNat ≤ 90 := hup
    rw [UInt32.toNat_add, show (32 : UInt32).toNat = 32 from rfl] at hval
    omega
  · rename_i hc
    exact decide_eq_false hc

/-- A character that is no small letter is not made from a capital. -/
theorem eq_of_toLower_eq {c x : Char} (h : c.toLower = x) (hx : x.toNat < 97) : c = x := by
  unfold Char.toLower at h
  split at h
  · rename_i hc
    subst h
    have hlow : 65 ≤ c.val.toNat := hc.1
    have hhigh : c.val.toNat ≤ 90 := hc.2
    have hsmall : (c.val + 32).toNat < 97 := hx
    rw [UInt32.toNat_add, show (32 : UInt32).toNat = 32 from rfl] at hsmall
    omega
  · exact h

/-- Folding leaves alone what is no letter, and makes no such character. -/
theorem toLower_eq_iff {c x : Char} (hx : x.toNat < 65) : c.toLower = x ↔ c = x := by
  constructor
  · intro h
    exact eq_of_toLower_eq h (by omega)
  · rintro rfl
    apply toLower_of_not_isUpper
    apply decide_eq_false
    rintro ⟨hlow, -⟩
    have hval : 65 ≤ c.val.toNat := hlow
    have hsmall : c.val.toNat < 65 := hx
    omega

/-- What is made a letter was one. -/
theorem isAlpha_of_toLower {c : Char} (h : c.toLower.isAlpha = true) : c.isAlpha = true := by
  cases hupper : c.isUpper with
  | true =>
    unfold Char.isAlpha
    rw [hupper, Bool.true_or]
  | false => rwa [toLower_of_not_isUpper hupper] at h

/-- A name without capitals is left alone. -/
theorem foldCase_of_not_isUpper {name : String} (h : ∀ c ∈ name.toList, c.isUpper = false) :
    foldCase name = name := by
  have hmap : foldChars name.toList = name.toList.map id :=
    List.map_congr_left fun c hc => toLower_of_not_isUpper (h c hc)
  rw [foldCase, hmap, List.map_id, String.ofList_toList]

/-- Folding twice is folding once. -/
@[simp] theorem foldCase_foldCase (s : String) : foldCase (foldCase s) = foldCase s := by
  have hchars : foldChars (foldChars s.toList) = foldChars s.toList := by
    rw [foldChars, foldChars, List.map_map]
    exact List.map_congr_left fun c _ => toLower_of_not_isUpper (isUpper_toLower c)
  rw [foldCase, toList_foldCase, hchars]
  rfl

/-- Whether names are the same does not depend on their case. -/
@[simp] theorem sameName_foldCase (a b : String) :
    sameName (foldCase a) (foldCase b) = sameName a b := by
  simp [sameName]

/-! ## Runs of characters -/

/-- The code points of blanks. -/
def blankCodes : List Nat :=
  List.range' 9 5 ++ List.range' 0x2000 11 ++ [0x20, 0x85, 0xa0, 0x1680, 0x2028, 0x2029, 0x202f,
    0x205f, 0x3000]

/-- What holds of no blank can be found out by looking at all of them. -/
theorem eq_false_of_isBlank {p : Char → Bool} (hp : ∀ n ∈ blankCodes, p (Char.ofNat n) = false)
    {c : Char} (h : isBlank c = true) : p c = false := by
  have hcode : c.toNat ∈ blankCodes := by
    simp only [isBlank, Bool.or_eq_true, Bool.and_eq_true, decide_eq_true_eq, beq_iff_eq] at h
    simp only [blankCodes, List.mem_append, List.mem_range'_1, List.mem_cons,
      List.not_mem_nil, or_false]
    omega
  rw [← Char.ofNat_toNat c]
  exact hp c.toNat hcode

/-- The text does not go on with a character that satisfies `p`. -/
def Stops (p : Char → Bool) (cs : List Char) : Prop :=
  ∀ c ∈ cs.head?, p c = false

variable {p : Char → Bool} {a cs : List Char}

/-- Nothing begins with a character of the sort. -/
theorem Stops.nil : Stops p [] := by
  simp [Stops]

/-- Neither does a text that begins with another character. -/
theorem Stops.cons {c : Char} (h : p c = false) : Stops p (c :: cs) := by
  simpa [Stops] using h

/-- What a text that is not empty goes on with does not change when something is added to it. -/
theorem Stops.append (h : Stops p cs) (hne : cs ≠ []) (later : List Char) :
    Stops p (cs ++ later) := by
  cases cs with
  | nil => exact absurd rfl hne
  | cons c cs => exact h

/-- What is left of a text stops where the dropping did. -/
theorem stops_dropWhile (p : Char → Bool) (cs : List Char) : Stops p (cs.dropWhile p) := by
  have hstop := List.head?_dropWhile_not p cs
  intro c hc
  rw [Option.mem_def.mp hc] at hstop
  exact hstop

/-- A run that is followed by something else is taken, -/
theorem takeWhile_append_of_stops (ha : ∀ c ∈ a, p c = true) (hcs : Stops p cs) :
    (a ++ cs).takeWhile p = a := by
  rw [List.takeWhile_append_of_pos ha]
  cases cs with
  | nil => simp
  | cons c cs => rw [List.takeWhile_cons_of_neg (by simp [hcs c rfl]), List.append_nil]

/-- and dropped. -/
theorem dropWhile_append_of_stops (ha : ∀ c ∈ a, p c = true) (hcs : Stops p cs) :
    (a ++ cs).dropWhile p = cs := by
  rw [List.dropWhile_append_of_pos ha]
  cases cs with
  | nil => rfl
  | cons c cs => rw [List.dropWhile_cons_of_neg (by simp [hcs c rfl])]

/-! ## Searches -/

/-- Where something is read before the search stops, the question is answered no at once. -/
theorem of_breakAt_ne_nil {q : List Char → Bool} (h : (breakAt q cs).1 ≠ []) : q cs = false := by
  cases cs with
  | nil => exact absurd rfl h
  | cons c cs =>
    cases hq : q (c :: cs) with
    | false => rfl
    | true => simp [breakAt, hq] at h

/-- A search stops at the end or where the question is answered yes. -/
theorem stop_of_breakAt {q : List Char → Bool} {w : List Char} (h : breakAt q (a ++ w) = (a, w)) :
    w = [] ∨ q w = true := by
  by_cases hw : w = []
  · exact .inl hw
  · have hstop : q (breakAt q (a ++ w)).2 = true := breakAt_stop (by rw [h]; exact hw)
    rw [h] at hstop
    exact .inr hstop

/-- A search that stops at `w` stops at `w'` in its place, if no earlier answer changes from no to
yes. -/
theorem breakAt_swap {q : List Char → Bool} {w w' : List Char} (h : breakAt q (a ++ w) = (a, w))
    (hw' : w' = [] ∨ q w' = true)
    (hsame : ∀ c v, q (c :: v ++ w) = false → q (c :: v ++ w') = false) :
    breakAt q (a ++ w') = (a, w') := by
  refine breakAt_eq hw' fun x c y hsplit => hsame c y ?_
  have hfound : (breakAt q (a ++ w)).1 = x ++ c :: y := by rw [h]; exact hsplit
  have hno := breakAt_before hfound
  rwa [h] at hno

/-! ## Looking ahead -/

/-- Whether a text begins with given characters is known once a character has been read that is none
of them. -/
theorem startsWith_append_congr (lead : String) {c : Char} {a : List Char} (hc : c ∈ a)
    (hlead : c ∉ lead.toList) (x y : List Char) :
    startsWith (a ++ x) lead = startsWith (a ++ y) lead :=
  isPrefixOf_append_congr hc hlead x y

/-- It is also known from as many characters. -/
theorem startsWith_append_congr_of_length (lead : String) {a : List Char}
    (h : lead.toList.length ≤ a.length) (x y : List Char) :
    startsWith (a ++ x) lead = startsWith (a ++ y) lead := by
  have hone : ∀ {x y : List Char}, startsWith (a ++ x) lead = true →
      startsWith (a ++ y) lead = true := by
    intro x y hx
    have hlead :=
      List.prefix_of_prefix_length_le (List.isPrefixOf_iff_prefix.mp hx) (List.prefix_append a x) h
    exact List.isPrefixOf_iff_prefix.mpr (hlead.trans (List.prefix_append a y))
  exact Bool.eq_iff_iff.mpr ⟨hone, hone⟩

/-- The same holds up to case. -/
theorem startsWithFolded_append_congr (lead : String) {c : Char} {a : List Char} (hc : c ∈ a)
    (hlead : c.toLower ∉ lead.toList.map Char.toLower) (x y : List Char) :
    startsWithFolded (a ++ x) lead = startsWithFolded (a ++ y) lead := by
  unfold startsWithFolded
  by_cases hlength : lead.toList.length ≤ a.length
  · rw [List.take_append_of_le_length hlength, List.take_append_of_le_length hlength]
  · -- the character is among those that are compared
    have hno : ∀ z : List Char,
        (((a ++ z).take lead.toList.length).map Char.toLower == lead.toList.map Char.toLower) =
          false := by
      intro z
      refine beq_false_of_ne fun heq => hlead ?_
      rw [← heq, List.take_append, List.take_of_length_le (by omega)]
      exact List.mem_map_of_mem (List.mem_append_left _ hc)
    rw [hno x, hno y]

end HtmlLint.Text
