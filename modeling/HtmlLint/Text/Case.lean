/-! # Names up to ASCII case

Tag names, attribute names and severities ignore the case of ASCII letters and of no others. -/

namespace HtmlLint.Text

/-- The characters with ASCII capitals made small. -/
def foldChars (cs : List Char) : List Char :=
  cs.map Char.toLower

/-- The name with ASCII capitals made small. -/
def foldCase (s : String) : String :=
  String.ofList (foldChars s.toList)

/-- Two names are the same up to ASCII case. -/
def sameName (a b : String) : Bool :=
  foldCase a == foldCase b

@[simp] theorem toList_foldCase (s : String) : (foldCase s).toList = foldChars s.toList := by
  simp [foldCase]

/-- Every name is the same as itself. -/
theorem sameName_refl (s : String) : sameName s s = true := by
  simp [sameName]

end HtmlLint.Text
