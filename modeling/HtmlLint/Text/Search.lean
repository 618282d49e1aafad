/-! # Searching a text

A text is read from its front: a search asks a question of every suffix in turn and stops at the
first one that says yes.  `breakAt` returns the part before that suffix and the suffix itself. -/

namespace HtmlLint.Text

/-- The text begins with the given characters. -/
def startsWith (cs : List Char) (lead : String) : Bool :=
  lead.toList.isPrefixOf cs

/-- The text begins with the given characters up to ASCII case. -/
def startsWithFolded (cs : List Char) (lead : String) : Bool :=
  (cs.take lead.toList.length).map Char.toLower == lead.toList.map Char.toLower

/-- Split a text before its first non-empty suffix that satisfies `p`; the second part is empty if
there is none. -/
def breakAt (p : List Char → Bool) : List Char → List Char × List Char
  | [] => ([], [])
  | c :: cs =>
    if p (c :: cs) then ([], c :: cs)
    else
      let split := breakAt p cs
      (c :: split.1, split.2)

/-- `breakAt` loses nothing. -/
theorem breakAt_append (p : List Char → Bool) (cs : List Char) :
    (breakAt p cs).1 ++ (breakAt p cs).2 = cs := by
  induction cs with
  | nil => rfl
  | cons c cs ih =>
    simp only [breakAt]
    split
    · rfl
    · simp [ih]

/-- Where the search stops, the question is answered yes. -/
theorem breakAt_stop {p : List Char → Bool} {cs : List Char} (h : (breakAt p cs).2 ≠ []) :
    p (breakAt p cs).2 = true := by
  induction cs with
  | nil => simp [breakAt] at h
  | cons c cs ih =>
    simp only [breakAt] at h ⊢
    split
    · assumption
    · rename_i hp
      rw [if_neg hp] at h
      exact ih h

/-- Before the place where the search stops, the question is answered no. -/
theorem breakAt_before {p : List Char → Bool} {cs a b : List Char} {c : Char}
    (h : (breakAt p cs).1 = a ++ c :: b) : p (c :: b ++ (breakAt p cs).2) = false := by
  induction cs generalizing a with
  | nil => simp [breakAt] at h
  | cons d cs ih =>
    simp only [breakAt] at h ⊢
    split
    · rename_i hp
      rw [if_pos hp] at h
      simp at h
    · rename_i hp
      rw [if_neg hp] at h
      cases a with
      | nil =>
        simp only [List.nil_append, List.cons.injEq] at h
        obtain ⟨rfl, rfl⟩ := h
        simpa [breakAt_append] using hp
      | cons e a =>
        simp only [List.cons_append, List.cons.injEq] at h
        exact ih h.2

/-- A search stops at the first suffix for which the question is answered yes, or at the end. -/
theorem breakAt_eq {p : List Char → Bool} {a b : List Char} (hstop : b = [] ∨ p b = true)
    (hbefore : ∀ x c y, a = x ++ c :: y → p (c :: y ++ b) = false) :
    breakAt p (a ++ b) = (a, b) := by
  induction a with
  | nil =>
    cases b with
    | nil => rfl
    | cons c b =>
      have hp : p (c :: b) = true := by simpa using hstop
      simp [breakAt, hp]
  | cons c a ih =>
    have hno : p (c :: a ++ b) = false := hbefore [] c a rfl
    have hlater := ih fun x d y h => hbefore (c :: x) d y (by rw [h]; rfl)
    rw [List.cons_append] at hno ⊢
    simp [breakAt, hno, hlater]

/-- Dropping characters leaves no more than there was. -/
theorem length_dropWhile_le (p : Char → Bool) (cs : List Char) :
    (cs.dropWhile p).length ≤ cs.length :=
  (List.dropWhile_suffix p).length_le

/-- Dropping at least one character leaves fewer. -/
theorem length_dropWhile_lt {p : Char → Bool} {c : Char} {cs : List Char} (h : p c = true) :
    ((c :: cs).dropWhile p).length < (c :: cs).length := by
  have := length_dropWhile_le p cs
  rw [List.dropWhile_cons_of_pos h]
  simp only [List.length_cons]
  omega

/-- Nothing gets lost where a text is broken. -/
theorem length_breakAt (p : List Char → Bool) (cs : List Char) :
    (breakAt p cs).1.length + (breakAt p cs).2.length = cs.length := by
  rw [← List.length_append, breakAt_append]

/-- The parts of a text between separators; there is one more part than there are separators. -/
def splitOn (sep : Char) : List Char → List (List Char)
  | [] => [[]]
  | c :: cs =>
    if c = sep then [] :: splitOn sep cs
    else
      match splitOn sep cs with
      | [] => [[c]]
      | part :: parts => (c :: part) :: parts

end HtmlLint.Text
