/-! # Places in a source

A place is known by its offset in UTF-8 bytes and by its line and column, which start at one;
columns count characters and only a line feed starts a new line.  `Position` is a point, `Location`
a slice. -/

namespace HtmlLint

/-- The number of bytes of a text in UTF-8. -/
def byteLength (cs : List Char) : Nat :=
  cs.foldr (fun c n => c.utf8Size + n) 0

@[simp] theorem byteLength_nil : byteLength [] = 0 := rfl

@[simp] theorem byteLength_cons (c : Char) (cs : List Char) :
    byteLength (c :: cs) = c.utf8Size + byteLength cs := rfl

@[simp] theorem byteLength_append (a b : List Char) :
    byteLength (a ++ b) = byteLength a + byteLength b := by
  induction a with
  | nil => simp
  | cons c a ih => simp [ih, Nat.add_assoc]

/-- A point between two characters of a source. -/
structure Position where
  offset : Nat
  line : Nat
  column : Nat
  deriving DecidableEq, Inhabited

/-- The point before the first character. -/
def Position.start : Position :=
  ⟨0, 1, 1⟩

/-- The point after one more character. -/
def Position.next (p : Position) (c : Char) : Position :=
  if c = '\n' then ⟨p.offset + c.utf8Size, p.line + 1, 1⟩
  else ⟨p.offset + c.utf8Size, p.line, p.column + 1⟩

/-- The point after some more characters. -/
def Position.advance (p : Position) (cs : List Char) : Position :=
  cs.foldl Position.next p

@[simp] theorem Position.advance_nil (p : Position) : p.advance [] = p := rfl

@[simp] theorem Position.advance_cons (p : Position) (c : Char) (cs : List Char) :
    p.advance (c :: cs) = (p.next c).advance cs := rfl

@[simp] theorem Position.advance_append (p : Position) (a b : List Char) :
    p.advance (a ++ b) = (p.advance a).advance b := by
  simp [Position.advance]

/-- Going on by a text goes on by its bytes. -/
theorem Position.offset_advance (p : Position) (cs : List Char) :
    (p.advance cs).offset = p.offset + byteLength cs := by
  induction cs generalizing p with
  | nil => simp
  | cons c cs ih =>
    rw [Position.advance_cons, ih, byteLength_cons, Position.next]
    split <;> simp <;> omega

/-- A slice of a source: where it starts and how many bytes it has. -/
structure Location extends Position where
  size : Nat
  deriving DecidableEq, Inhabited

namespace Location

/-- The empty slice at a point. -/
def point (p : Position) : Location :=
  { toPosition := p, size := 0 }

/-- The slice that a text occupies from a point on. -/
def covering (p : Position) (cs : List Char) : Location :=
  { toPosition := p, size := byteLength cs }

/-- The byte offset just after the slice. -/
def stop (l : Location) : Nat :=
  l.offset + l.size

/-- The slice of `size` bytes that starts after `skipped`, which is the source's text from the start
of this slice on. -/
def advance (l : Location) (skipped : List Char) (size : Nat) : Location :=
  { toPosition := l.toPosition.advance skipped, size := size }

/-- The slice widened or narrowed to stop where another one stops, unless that is not after its
start. -/
def extendTo (l other : Location) : Location :=
  if other.stop > l.offset then { l with size := other.stop - l.offset } else l

/-- The slice as a reader of a file is told about it. -/
def describe (file : String) (l : Location) : String :=
  file ++ ":" ++ toString l.line ++ ":" ++ toString l.column

end Location

/-- The bytes of a source from one offset up to another. -/
structure ByteRange where
  start : Nat
  stop : Nat
  deriving DecidableEq, Inhabited

namespace ByteRange

/-- The offset lies in the range. -/
def contains (r : ByteRange) (offset : Nat) : Bool :=
  r.start ≤ offset && offset < r.stop

/-- The ranges overlap, and the second one starts inside the first and goes beyond it. -/
def crosses (a b : ByteRange) : Bool :=
  a.start < b.start && b.start < a.stop && a.stop < b.stop

/-- The second range is at least as far inside as the first: it starts later, or at the same offset
and stops no later. -/
def yieldsTo (a b : ByteRange) : Bool :=
  a.start < b.start || (a.start == b.start && b.stop ≤ a.stop)

end ByteRange

end HtmlLint
