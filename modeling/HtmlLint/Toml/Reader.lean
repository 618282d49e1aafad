import HtmlLint.Toml.Quoted
import HtmlLint.Toml.Scalar
import HtmlLint.Toml.Tree

/-! # Reading a configuration

A configuration is a sequence of headers and of keys with values, one a line.  A text that is not
well-formed has no table, and nothing more is said about it.  Values nest at most eighty deep, and a
key has at most eighty parts. -/

namespace HtmlLint.Toml

/-- How deep values nest, and how many parts a key has. -/
def maxDepth : Nat := 80

/-- Leave out blanks. -/
def skipBlanks (cs : List Char) : List Char :=
  cs.dropWhile isBlank

/-- Leave out blanks, line breaks and comments; a comment must not hold controls. -/
def skipSpace (comment : Bool) : List Char → Option (List Char)
  | [] => some []
  | c :: cs =>
    if c = '\n' || startsLine (c :: cs) then skipSpace (comment && c != '\n') cs
    else if comment then if isPlain c then skipSpace true cs else none
    else if isBlank c then skipSpace false cs
    else if c = '#' then skipSpace true cs
    else some (c :: cs)

/-- A character of a key without quotes. -/
def isKeyChar (c : Char) : Bool :=
  c.isAlphanum || c == '_' || c == '-'

/-- One part of a key. -/
def readKeyPart? (cs : List Char) : Option (String × List Char) :=
  match cs with
  | '"' :: _ => readLine? cs
  | '\'' :: _ => readLine? cs
  | _ =>
    let word := cs.takeWhile isKeyChar
    if word.isEmpty then none else some (String.ofList word, cs.drop word.length)

/-- The parts of a key, at most `limit` of them, with dots between them, which blanks may surround:
all parts but the last, and the last. -/
def readParts? : Nat → List Char → Option ((List String × String) × List Char)
  | 0, _ => none
  | limit + 1, cs =>
    (readKeyPart? cs).bind fun (part, rest) =>
      match skipBlanks rest with
      | '.' :: more =>
        (readParts? limit (skipBlanks more)).map fun ((path, last), rest) =>
          ((part :: path, last), rest)
      | rest => some (([], part), rest)

/-- A key: all parts but the last, and the last. -/
def readKey? (cs : List Char) : Option ((List String × String) × List Char) :=
  readParts? maxDepth cs

mutual

/-- A value, nested at most `depth` deep. -/
def readValue? : Nat → Nat → List Char → Option (Value × List Char)
  | 0, _, _ => none
  | fuel + 1, depth, cs =>
    match cs with
    | '"' :: _ => (readString? cs).map fun (s, rest) => (.string s, rest)
    | '\'' :: _ => (readString? cs).map fun (s, rest) => (.string s, rest)
    | '[' :: rest =>
      if depth = 0 then none
      else (readItems? fuel (depth - 1) rest).map fun (items, rest) => (.array items, rest)
    | '\x7b' :: rest =>
      if depth = 0 then none
      else
        (readMembers? fuel (depth - 1) [] rest).map fun (entries, rest) =>
          (.table (Entries.toTable entries).entries, rest)
    | _ => readScalar? cs

/-- The items of an array up to its closing bracket; the last item may have a comma after it. -/
def readItems? : Nat → Nat → List Char → Option (List Value × List Char)
  | 0, _, _ => none
  | fuel + 1, depth, cs =>
    (skipSpace false cs).bind fun cs =>
      match cs with
      | ']' :: rest => some ([], rest)
      | cs =>
        (readValue? fuel depth cs).bind fun (v, rest) =>
          (skipSpace false rest).bind fun rest =>
            match rest with
            | ',' :: rest =>
              (readItems? fuel depth rest).map fun (items, rest) => (v :: items, rest)
            | ']' :: rest => some ([v], rest)
            | _ => none

/-- The members of a table between braces, up to the closing one.  They may go over several lines,
and the last member may have a comma after it. -/
def readMembers? : Nat → Nat → Entries → List Char → Option (Entries × List Char)
  | 0, _, _, _ => none
  | fuel + 1, depth, entries, cs =>
    (skipSpace false cs).bind fun cs =>
      match cs with
      | '\x7d' :: rest => some (entries, rest)
      | cs =>
        (readKey? cs).bind fun ((path, key), rest) =>
          (skipSpace false rest).bind fun rest =>
            match rest with
            | '=' :: rest =>
              (skipSpace false rest).bind fun rest =>
                (readValue? fuel depth rest).bind fun (v, rest) =>
                  (insertDotted key v path entries).bind fun entries =>
                    (skipSpace false rest).bind fun rest =>
                      match rest with
                      | ',' :: rest => readMembers? fuel depth entries rest
                      | '\x7d' :: rest => some (entries, rest)
                      | _ => none
            | _ => none

end

/-- What is read so far: all tables, and the header that keys stand under. -/
structure Reading where
  entries : Entries
  header : List String
  deriving Inhabited

/-- The text may go on only on the next line. -/
def endsLine (cs : List Char) : Bool :=
  match skipBlanks cs with
  | [] => true
  | '#' :: _ => true
  | cs => startsLine cs

/-- A header, or a key with its value. -/
def readStatement? (fuel : Nat) (r : Reading) (cs : List Char) : Option (Reading × List Char) :=
  match cs with
  | '[' :: '[' :: rest =>
    (readKey? (skipBlanks rest)).bind fun ((path, key), rest) =>
      match rest with
      | ']' :: ']' :: rest =>
        (atHeader (repeatTable key) path r.entries).map fun entries =>
          (⟨entries, path ++ [key]⟩, rest)
      | _ => none
  | '[' :: rest =>
    (readKey? (skipBlanks rest)).bind fun ((path, key), rest) =>
      match rest with
      | ']' :: rest =>
        (atHeader (openTable key) path r.entries).map fun entries =>
          (⟨entries, path ++ [key]⟩, rest)
      | _ => none
  | cs =>
    (readKey? cs).bind fun ((path, key), rest) =>
      match rest with
      | '=' :: rest =>
        (readValue? fuel maxDepth (skipBlanks rest)).bind fun (v, rest) =>
          (atHeader (insertDotted key v path) r.header r.entries).map fun entries =>
            (⟨entries, r.header⟩, rest)
      | _ => none

/-- The statements of a text, each of which ends its line. -/
def readStatements? (length : Nat) : Nat → Reading → List Char → Option Reading
  | 0, _, _ => none
  | fuel + 1, r, cs =>
    (skipSpace false cs).bind fun cs =>
      if cs.isEmpty then some r
      else
        (readStatement? length r cs).bind fun (r, rest) =>
          if endsLine rest then readStatements? length fuel r rest else none

/-- The table of a text.  Every step of reading takes at least one character, so that the length of
the text bounds their number.  A byte order mark at the beginning is left out. -/
def read? (text : String) : Option Table :=
  let cs := match text.toList with
    | '\ufeff' :: cs => cs
    | cs => cs
  let fuel := 2 * cs.length + 2
  (readStatements? fuel fuel ⟨[], []⟩ cs).map fun r => r.entries.toTable

end HtmlLint.Toml
