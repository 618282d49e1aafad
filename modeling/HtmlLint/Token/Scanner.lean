import HtmlLint.Text.Case
import HtmlLint.Text.Letter
import HtmlLint.Token

/-! # Cutting a source into tokens

A `Scanner` is a state machine over the characters that are still to be read.  Each `turn` yields a
token, or moves on without one, or finds that the source cannot be cut up, or is at the end.  Every
turn that goes on makes `Scanner.weight` smaller, so that `Scanner.next` and `Scanner.run` are
total.  Blanks, single slashes and equals signs inside a tag are passed over and belong to no
token. -/

namespace HtmlLint

/-- Why a source cannot be cut into tokens. -/
inductive ScanFault where
  /-- the source ends inside the tag of this name -/
  | unterminatedTag (name : String)
  /-- this character may not stand in a tag -/
  | unexpectedInTag (c : Char)
  /-- a quote is opened and not closed -/
  | unterminatedValue
  /-- a comment has no end -/
  | unterminatedComment
  /-- a doctype has no end -/
  | unterminatedDoctype
  deriving DecidableEq, Inhabited

/-- The wording of a fault. -/
def ScanFault.message : ScanFault → String
  | unterminatedTag name => "failed to tokenize: unterminated tag <" ++ name ++ ">"
  | unexpectedInTag c => "failed to tokenize: unexpected '" ++ String.singleton c ++ "' in tag"
  | unterminatedValue => "failed to tokenize: unterminated attribute value"
  | unterminatedComment => "failed to tokenize: unterminated comment"
  | unterminatedDoctype => "failed to tokenize: unterminated doctype"

/-- A fault and where it is. -/
structure ScanError where
  fault : ScanFault
  location : Location
  deriving DecidableEq, Inhabited

/-- The tag that is being read. -/
structure TagInProgress where
  /-- the name as written -/
  name : String
  /-- it is an end tag -/
  closing : Bool
  /-- where its `<` stands -/
  start : Position
  deriving DecidableEq, Inhabited

/-- What the scanner expects next. -/
inductive ScanMode where
  /-- text or markup -/
  | text
  /-- a tag's `<` or `</` -/
  | tagOpen
  /-- the name of a tag that begins with what has been read of it -/
  | tagName (lead : List Char)
  /-- an attribute or the end of the tag -/
  | attributeName (tag : TagInProgress)
  /-- the value of an attribute -/
  | attributeValue (tag : TagInProgress)
  /-- a comment -/
  | comment
  /-- a doctype -/
  | doctype
  /-- the content of an element that holds text only, up to its end tag -/
  | rawText (name : String)
  /-- nothing: a fault was found -/
  | failed
  deriving DecidableEq, Inhabited

/-- The state of reading a source. -/
structure Scanner where
  /-- where the next token or what stands before it begins -/
  position : Position
  /-- what is left to read -/
  rest : List Char
  /-- what is expected -/
  mode : ScanMode
  deriving DecidableEq, Inhabited

/-- What one turn of the scanner does. -/
inductive Turn where
  /-- it yields a token -/
  | token (t : Token) (next : Scanner)
  /-- it goes on without a token -/
  | skip (next : Scanner)
  /-- it finds a fault -/
  | fault (e : ScanError)
  /-- it is at the end -/
  | finished
  deriving DecidableEq, Inhabited

/-- The state after a turn that goes on. -/
def Turn.next? : Turn → Option Scanner
  | .token _ next => some next
  | .skip next => some next
  | .fault _ => none
  | .finished => none

/-- The elements whose content is text up to their end tag. -/
def rawTextElements : List String :=
  ["script", "style", "textarea", "title"]

/-- The character may stand in a tag name. -/
def isNameChar (c : Char) : Bool :=
  Text.isLetterOrDigit c || c == '-' || c == '_' || c == ':' || c == '.'

/-- The character ends an attribute name. -/
def endsAttrName (c : Char) : Bool :=
  Text.isBlank c || c == '>' || c == '/' || c == '=' || c == '"' || c == '\'' || c == '<'

/-- The character ends an attribute value without quotes. -/
def endsBareValue (c : Char) : Bool :=
  Text.isBlank c || c == '>'

/-- `<name` or `</name` begins here. -/
def startsTag : List Char → Bool
  | '<' :: '/' :: c :: _ => c.isAlpha
  | '<' :: c :: _ => c.isAlpha
  | _ => false

/-- A tag, a comment, a doctype or something in place of one begins here. -/
def startsMarkup (cs : List Char) : Bool :=
  startsTag cs || Text.startsWith cs "<!" || Text.startsWith cs "<?"

/-- The end tag of the named element begins here. -/
def startsEndTagOf (name : String) (cs : List Char) : Bool :=
  Text.startsWith cs "</" && Text.startsWithFolded (cs.drop 2) name &&
    match cs.drop (2 + name.toList.length) with
    | [] => true
    | c :: _ => Text.isBlank c || c == '>' || c == '/'

namespace Scanner

/-- The scanner at the start of a source. -/
def ofSource (source : List Char) : Scanner :=
  ⟨.start, source, .text⟩

/-- Expect something else without reading. -/
def expect (s : Scanner) (mode : ScanMode) : Scanner :=
  { s with mode }

/-- Read `taken`, which leaves `rest`. -/
def read (s : Scanner) (taken rest : List Char) (mode : ScanMode) : Scanner :=
  ⟨s.position.advance taken, rest, mode⟩

/-- Yield the token of the characters `taken`, which leaves `rest`. -/
def emit (s : Scanner) (kind : TokenKind) (taken rest : List Char) (mode : ScanMode) : Turn :=
  .token ⟨kind, String.ofList taken, .covering s.position taken⟩ (s.read taken rest mode)

/-- A fault that concerns all that is left. -/
def faultHere (s : Scanner) (fault : ScanFault) : Turn :=
  .fault ⟨fault, .covering s.position s.rest⟩

/-- The fault that the source ends inside a tag. -/
def unterminated (tag : TagInProgress) : Turn :=
  .fault ⟨.unterminatedTag tag.name, .point tag.start⟩

/-- Pass over the blanks that come next. -/
def skipBlanks (s : Scanner) : Scanner :=
  s.read (s.rest.takeWhile Text.isBlank) (s.rest.dropWhile Text.isBlank) s.mode

/-- Read text up to the next markup, or see which markup begins here. -/
def turnText (s : Scanner) : Turn :=
  if s.rest.isEmpty then .finished
  else if Text.startsWith s.rest "<!--" || Text.startsWith s.rest "<?" then
    .skip (s.expect .comment)
  else if Text.startsWithFolded s.rest "<!doctype" then .skip (s.expect .doctype)
  else if Text.startsWith s.rest "<!" then .skip (s.expect .comment)
  else if startsTag s.rest then .skip (s.expect .tagOpen)
  else
    let run := Text.breakAt startsMarkup s.rest
    s.emit .text run.1 run.2 .text

/-- Read a tag's `<` or `</`. -/
def turnTagOpen (s : Scanner) : Turn :=
  let length := if Text.startsWith s.rest "</" then 2 else 1
  .skip { s with rest := s.rest.drop length, mode := .tagName (s.rest.take length) }

/-- Read a tag's name, which makes a token together with what has been read of the tag. -/
def turnTagName (s : Scanner) (lead : List Char) : Turn :=
  let name := s.rest.takeWhile isNameChar
  s.emit .tagOpen (lead ++ name) (s.rest.dropWhile isNameChar)
    (.attributeName ⟨String.ofList name, Text.startsWith lead "</", s.position⟩)

/-- What follows the `>` of a tag. -/
def afterTag (tag : TagInProgress) : ScanMode :=
  if !tag.closing && rawTextElements.contains (Text.foldCase tag.name) then
    .rawText (Text.foldCase tag.name)
  else .text

/-- Read an attribute's name, and the equals sign if one follows and a value after it. -/
def readAttribute (s : Scanner) (tag : TagInProgress) : Turn :=
  let name := s.rest.takeWhile fun c => !endsAttrName c
  let after := s.rest.dropWhile fun c => !endsAttrName c
  let gap := after.takeWhile Text.isBlank
  let token : Token := ⟨.attrName, String.ofList name, .covering s.position name⟩
  match after.dropWhile Text.isBlank with
  | '=' :: value =>
    -- An equals sign with only blanks between it and the end of the tag gives no value.
    let mode :=
      if Text.startsWith (value.dropWhile Text.isBlank) ">" then .attributeName tag
      else .attributeValue tag
    .token token (s.read (name ++ gap ++ ['=']) value mode)
  | _ => .token token (s.read name after (.attributeName tag))

/-- Read the end of a tag, an attribute, or a slash that means nothing. -/
def turnAttributeName (s : Scanner) (tag : TagInProgress) : Turn :=
  let s := s.skipBlanks
  match s.rest with
  | [] => unterminated tag
  | '>' :: rest => s.emit .tagClose ['>'] rest (afterTag tag)
  | '/' :: '>' :: rest => s.emit .tagClose ['/', '>'] rest .text
  | '/' :: rest => .skip (s.read ['/'] rest (.attributeName tag))
  | c :: _ =>
    if c == '"' || c == '\'' || c == '<' || c == '=' then
      .fault ⟨.unexpectedInTag c, .covering s.position [c]⟩
    else s.readAttribute tag

/-- Read the value of an attribute. -/
def turnAttributeValue (s : Scanner) (tag : TagInProgress) : Turn :=
  let s := s.skipBlanks
  match s.rest with
  | [] => unterminated tag
  | c :: cs =>
    if c == '"' || c == '\'' then
      match cs.dropWhile (· != c) with
      | [] => s.faultHere .unterminatedValue
      | _ :: after =>
        s.emit .attrValue (c :: cs.takeWhile (· != c) ++ [c]) after (.attributeName tag)
    else
      s.emit .attrValue (s.rest.takeWhile fun c => !endsBareValue c)
        (s.rest.dropWhile fun c => !endsBareValue c) (.attributeName tag)

/-- Read up to the first `>`. -/
def upToAngle (s : Scanner) (kind : TokenKind) (fault : ScanFault) : Turn :=
  match s.rest.dropWhile (· != '>') with
  | [] => s.faultHere fault
  | _ :: after => s.emit kind (s.rest.takeWhile (· != '>') ++ ['>']) after .text

/-- Read a comment. -/
def turnComment (s : Scanner) : Turn :=
  if Text.startsWith s.rest "<!--" then
    let body := Text.breakAt (Text.startsWith · "-->") (s.rest.drop 4)
    if body.2.isEmpty then s.faultHere .unterminatedComment
    else s.emit .comment (s.rest.take 4 ++ body.1 ++ body.2.take 3) (body.2.drop 3) .text
  else s.upToAngle .comment .unterminatedComment

/-- Read text up to the end tag of the named element. -/
def turnRawText (s : Scanner) (name : String) : Turn :=
  let run := Text.breakAt (startsEndTagOf name) s.rest
  if run.1.isEmpty then .skip (s.expect .text) else s.emit .text run.1 run.2 .text

/-- One turn of the machine. -/
def turn (s : Scanner) : Turn :=
  match s.mode with
  | .text => s.turnText
  | .tagOpen => s.turnTagOpen
  | .tagName lead => s.turnTagName lead
  | .attributeName tag => s.turnAttributeName tag
  | .attributeValue tag => s.turnAttributeValue tag
  | .comment => s.turnComment
  | .doctype => s.upToAngle .doctype .unterminatedDoctype
  | .rawText name => s.turnRawText name
  | .failed => .finished

end Scanner

end HtmlLint
