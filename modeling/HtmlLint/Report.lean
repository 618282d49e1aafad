import HtmlLint.Message
import HtmlLint.Report.Selector

/-! # Reports

A report lists the messages about each source by their place, and counts them.  It is written as
plain text or as JSON. -/

namespace HtmlLint

/-- How a message shows which node it is about. -/
abbrev Locator := Document → NodeId → Option String

/-- A message as it is reported. -/
structure ReportedMessage where
  message : Message
  selector : Option String
  deriving Inhabited

/-- The messages about one source, in the order of their places. -/
structure DocumentReport where
  file : String
  messages : List ReportedMessage
  deriving Inhabited

/-- The messages in the order of their offsets; those at the same offset keep their order. -/
def sortByOffset (messages : List Message) : List Message :=
  messages.mergeSort fun a b => a.location.offset ≤ b.location.offset

namespace DocumentReport

/-- Report messages about a source.  Where its document is known, messages about a node say
which. -/
def ofMessages (file : String) (document : Option Document) (locate : Locator)
    (messages : List Message) : DocumentReport where
  file := file
  messages := (sortByOffset messages).map fun m =>
    ⟨m, document.bind fun d => m.node.bind (locate d)⟩

/-- The number of messages of a severity. -/
def count (r : DocumentReport) (s : Severity) : Nat :=
  (r.messages.filter fun m => m.message.severity == s).length

/-- The number of errors. -/
def errorCount (r : DocumentReport) : Nat :=
  r.count .error

/-- The number of warnings. -/
def warningCount (r : DocumentReport) : Nat :=
  r.count .warning

/-- There are no errors. -/
def isValid (r : DocumentReport) : Bool :=
  r.errorCount == 0

end DocumentReport

/-- The reports on several sources. -/
structure Report where
  results : List DocumentReport
  deriving Inhabited

namespace Report

/-- The number of errors in all sources. -/
def errorCount (r : Report) : Nat :=
  r.results.foldr (fun report n => report.errorCount + n) 0

/-- The number of warnings in all sources. -/
def warningCount (r : Report) : Nat :=
  r.results.foldr (fun report n => report.warningCount + n) 0

/-- No source has an error. -/
def isValid (r : Report) : Bool :=
  r.results.all DocumentReport.isValid

end Report

/-! ## Plain text -/

/-- A word, followed by blanks up to a width. -/
def padRight (width : Nat) (s : String) : String :=
  s ++ String.ofList (List.replicate (width - s.length) ' ')

/-- A message on a line of its own. -/
def ReportedMessage.line (m : ReportedMessage) : String :=
  let l := m.message.location
  "  " ++ toString l.line ++ ":" ++ toString l.column ++ "  " ++ padRight 7 m.message.severity.name
    ++ "  " ++ m.message.text ++ "  " ++ m.message.rule.getD "" ++ "\n"

/-- The file and its messages; nothing if there are none. -/
def DocumentReport.text (r : DocumentReport) : String :=
  if r.messages.isEmpty then ""
  else r.file ++ "\n" ++ String.join (r.messages.map ReportedMessage.line)

/-- A number of things. -/
def counted (n : Nat) (thing : String) : String :=
  toString n ++ " " ++ thing ++ if n = 1 then "" else "s"

/-- All files with their messages, and how many there are. -/
def Report.text (r : Report) : String :=
  let problems := r.errorCount + r.warningCount
  let summary :=
    if problems = 0 then ""
    else
      "\n" ++ counted problems "problem" ++ " (" ++ counted r.errorCount "error" ++ ", "
        ++ counted r.warningCount "warning" ++ ")\n"
  String.join (r.results.map DocumentReport.text) ++ summary

/-! ## JSON -/

/-- A message as JSON. -/
def ReportedMessage.toJson (m : ReportedMessage) : Json :=
  let l := m.message.location
  .obj [("ruleId", .ofOption m.message.rule), ("severity", .num m.message.severity.level),
    ("message", .str m.message.text), ("line", .num l.line), ("column", .num l.column),
    ("offset", .num l.offset), ("size", .num l.size), ("selector", .ofOption m.selector),
    ("context", m.message.context.getD .null)]

/-- The report on one source as JSON. -/
def DocumentReport.toJson (r : DocumentReport) : Json :=
  .obj [("filePath", .str r.file), ("valid", .bool r.isValid), ("errorCount", .num r.errorCount),
    ("warningCount", .num r.warningCount),
    ("messages", .arr (r.messages.map ReportedMessage.toJson))]

/-- The whole report as JSON. -/
def Report.toJson (r : Report) : Json :=
  .obj [("valid", .bool r.isValid), ("errorCount", .num r.errorCount),
    ("warningCount", .num r.warningCount), ("results", .arr (r.results.map DocumentReport.toJson))]

end HtmlLint
