import HtmlLint.Token.Weight

/-! # The tokens of a source

`Scanner.next` reads one token at a time and `Scanner.run` reads them all.  A source either is cut
up to its end or stops at one fault. -/

namespace HtmlLint

/-- What reading a source gives: a token, a fault, or nothing more. -/
inductive Reading where
  | token (t : Token)
  | fault (e : ScanError)
  | none
  deriving DecidableEq, Inhabited

/-- The tokens of a source up to its end or to the fault that stops the reading. -/
structure Scan where
  tokens : List Token
  failure : Option ScanError
  deriving DecidableEq, Inhabited

namespace Scanner

/-- Take turns until something is found; after a fault nothing more is. -/
def next (s : Scanner) : Reading × Scanner :=
  match _h : s.turn with
  | .token t s' => (.token t, s')
  | .skip s' => next s'
  | .fault e => (.fault e, s.expect .failed)
  | .finished => (.none, s)
termination_by s.weight
decreasing_by exact weight_of_skip _h

/-- Take turns to the end. -/
def run (s : Scanner) : Scan :=
  match _h : s.turn with
  | .token t s' =>
    let later := run s'
    ⟨t :: later.tokens, later.failure⟩
  | .skip s' => run s'
  | .fault e => ⟨[], some e⟩
  | .finished => ⟨[], none⟩
termination_by s.weight
decreasing_by
  · exact weight_of_token _h
  · exact weight_of_skip _h

variable {s s' : Scanner}

/-- A token is followed by those of the next state. -/
theorem run_of_token {t : Token} (h : s.turn = .token t s') :
    s.run = ⟨t :: s'.run.tokens, s'.run.failure⟩ := by
  rw [run]
  split <;> simp_all

/-- A turn without a token changes nothing of what is to come. -/
theorem run_of_skip (h : s.turn = .skip s') : s.run = s'.run := by
  rw [run]
  split <;> simp_all

/-- A fault is the end, -/
theorem run_of_fault {e : ScanError} (h : s.turn = .fault e) : s.run = ⟨[], some e⟩ := by
  rw [run]
  split <;> simp_all

/-- and so is the end of the source. -/
theorem run_of_finished (h : s.turn = .finished) : s.run = ⟨[], none⟩ := by
  rw [run]
  split <;> simp_all

end Scanner

/-- Cut a source into tokens. -/
def tokenize (source : String) : Scan :=
  (Scanner.ofSource source.toList).run

end HtmlLint
