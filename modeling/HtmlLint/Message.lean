import HtmlLint.Document
import HtmlLint.Json
import HtmlLint.Severity

/-! # Messages

A message is what a rule, or the reading of the source itself, has to say about a place. -/

namespace HtmlLint

/-- Something to be told about a source. -/
structure Message where
  /-- the rule that says it; none for faults of the source and of directives -/
  rule : Option String
  severity : Severity
  text : String
  location : Location
  /-- the node it is about -/
  node : Option NodeId := none
  /-- what tools may want to know -/
  context : Option Json := none
  deriving Inhabited

/-- The message is an error. -/
def Message.isError (m : Message) : Bool :=
  m.severity == .error

end HtmlLint
