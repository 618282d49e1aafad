import HtmlLint.Location
import HtmlLint.Text.Blank
import HtmlLint.Text.Search

/-! # Tokens

A token is a slice of the source with its kind.  The functions here read the parts of a token's
text: a tag's name, an attribute's value and its quotes, the body of a comment. -/

namespace HtmlLint

/-- What a token is. -/
inductive TokenKind where
  /-- `<name` or `</name` -/
  | tagOpen
  /-- `>` or `/>` -/
  | tagClose
  /-- the name of an attribute -/
  | attrName
  /-- the value of an attribute with its quotes -/
  | attrValue
  /-- text between tags -/
  | text
  /-- `<!-- … -->`, or `<! … >` and `<? … >` in place of one -/
  | comment
  /-- `<!doctype … >` -/
  | doctype
  deriving DecidableEq, Inhabited

/-- How the value of an attribute is quoted. -/
inductive Quote where
  | double
  | single
  | unquoted
  deriving DecidableEq, Inhabited

/-- A slice of the source. -/
structure Token where
  kind : TokenKind
  text : String
  location : Location
  deriving DecidableEq, Inhabited

/-- Split a text after its first `n` bytes; there is no such split inside a character or past the
end. -/
def splitBytes : Nat → List Char → Option (List Char × List Char)
  | 0, cs => some ([], cs)
  | _ + 1, [] => none
  | n + 1, c :: cs =>
    if c.utf8Size ≤ n + 1 then (splitBytes (n + 1 - c.utf8Size) cs).map fun r => (c :: r.1, r.2)
    else none

/-- A text without its last byte, from a given byte on: the part skipped and the part kept.  Both
are empty where the text is too short or a cut falls inside a character. -/
def innerBytes (start : Nat) (cs : List Char) : List Char × List Char :=
  if start + 1 ≤ byteLength cs then
    match splitBytes start cs with
    | some (skipped, rest) =>
      match splitBytes (byteLength rest - 1) rest with
      | some (kept, _) => (skipped, kept)
      | none => ([], [])
    | none => ([], [])
  else ([], [])

namespace Token

/-- The name in a tag's token, as written. -/
def tagName (t : Token) : String :=
  match t.text.toList with
  | '<' :: '/' :: name => String.ofList name
  | '<' :: name => String.ofList name
  | name => String.ofList name

/-- The token begins an end tag. -/
def isEndTag (t : Token) : Bool :=
  t.kind == .tagOpen && Text.startsWith t.text.toList "</"

/-- The token is `/>`. -/
def isSelfClosing (t : Token) : Bool :=
  t.kind == .tagClose && t.text == "/>"

/-- The text between two equal delimiters, if it stands between them. -/
def between? (delimiter : Char) (cs : List Char) : Option (List Char) :=
  match cs with
  | c :: inner =>
    if c = delimiter ∧ inner.getLast? = some delimiter then some inner.dropLast else none
  | [] => none

/-- The value of an attribute without its quotes, and how it was quoted. -/
def attrValue (t : Token) : String × Quote :=
  match between? '"' t.text.toList with
  | some value => (String.ofList value, .double)
  | none =>
    match between? '\'' t.text.toList with
    | some value => (String.ofList value, .single)
    | none => (t.text, .unquoted)

/-- The part of a text that stands between the delimiters of a full comment. -/
def commentInner? (cs : List Char) : Option (List Char) :=
  if Text.startsWith cs "<!--" then
    let inner := cs.drop 4
    if "-->".toList.isSuffixOf inner then some (inner.take (inner.length - 3)) else none
  else none

/-- A comment cut in two before its body, which ends where `-->` or else the last byte begins.  The
body starts after `<!--` or else after the first two bytes. -/
def commentParts (t : Token) : List Char × List Char :=
  match commentInner? t.text.toList with
  | some inner => ("<!--".toList, inner)
  | none => innerBytes 2 t.text.toList

/-- The body of a comment. -/
def commentBody (t : Token) : List Char :=
  t.commentParts.2

/-- What a doctype declares, without surrounding blanks. -/
def doctypeValue (t : Token) : String :=
  String.ofList (Text.trim (innerBytes 9 t.text.toList).2)

end Token

end HtmlLint
