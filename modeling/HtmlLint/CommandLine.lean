import HtmlLint.Linter
import HtmlLint.Settings.File
import HtmlLint.Trace

/-! # The command line

A run is a function of its arguments and of the files it can read.  The arguments name the files to
check; options choose a configuration, change severities, choose the form of the report, or ask for
a trace instead of a report. -/

namespace HtmlLint.CommandLine

/-- The form of the report. -/
inductive Format where
  | text
  | json
  deriving DecidableEq, Inhabited

/-- What to show instead of a report. -/
inductive Dump where
  | tokens
  | events
  | tree
  deriving DecidableEq, Inhabited

/-- What the arguments say so far. -/
structure Draft where
  files : List String := []
  config : Option String := none
  format : Option Format := none
  overrides : List String := []
  logLevel : Option String := none
  dumps : List Dump := []
  deriving Inhabited

/-- A run that checks files or traces them. -/
structure Invocation where
  files : List String
  config : Option String
  format : Format
  overrides : List String
  dump : Option Dump
  deriving Inhabited

/-- What the arguments ask for. -/
inductive Request where
  | invoke (i : Invocation)
  | showVersion
  | showHelp
  /-- the arguments make no sense -/
  | misuse
  deriving Inhabited

/-! ## Reading the arguments -/

/-- An option that takes a value. -/
inductive Setting where
  | config
  | formatter
  | rule
  | logLevel
  deriving DecidableEq, Inhabited

/-- An option by its long name. -/
inductive Flag where
  | setting (s : Setting)
  | dump (d : Dump)
  | version
  | help
  deriving DecidableEq, Inhabited

/-- The option of a long name. -/
def Flag.ofName? : String → Option Flag
  | "config" => some (setting .config)
  | "formatter" => some (setting .formatter)
  | "rule" => some (setting .rule)
  | "log-level" => some (setting .logLevel)
  | "dump-tokens" => some (dump .tokens)
  | "dump-events" => some (dump .events)
  | "dump-tree" => some (dump .tree)
  | "version" => some version
  | "help" => some help
  | _ => none

/-- The option of a letter. -/
def Flag.ofLetter? : Char → Option Flag
  | 'c' => some (setting .config)
  | 'f' => some (setting .formatter)
  | 'V' => some version
  | 'h' => some help
  | _ => none

/-- The format of a name. -/
def Format.ofName? : String → Option Format
  | "text" => some text
  | "json" => some json
  | _ => none

/-- Take note of the value of an option; only overrides may be repeated, and the path of a
configuration is not empty. -/
def Draft.set (d : Draft) (s : Setting) (value : String) : Option Draft :=
  match s with
  | .config =>
    if d.config.isSome || value.isEmpty then none else some { d with config := some value }
  | .formatter =>
    if d.format.isSome then none else (Format.ofName? value).map fun f =>
      { d with format := some f }
  | .rule => some { d with overrides := d.overrides ++ [value] }
  | .logLevel => if d.logLevel.isSome then none else some { d with logLevel := some value }

/-- Take note of a trace that is asked for. -/
def Draft.addDump (d : Draft) (dump : Dump) : Option Draft :=
  if d.dumps.contains dump then none else some { d with dumps := d.dumps ++ [dump] }

/-- Take note of a file. -/
def Draft.addFile (d : Draft) (file : String) : Option Draft :=
  if file.isEmpty then none else some { d with files := d.files ++ [file] }

/-- The run that is asked for: there are files, and at most one trace. -/
def Draft.finish (d : Draft) : Request :=
  match d.files, d.dumps with
  | [], _ => .misuse
  | _ :: _, _ :: _ :: _ => .misuse
  | files, dumps => .invoke ⟨files, d.config, d.format.getD .text, d.overrides, dumps.head?⟩

/-- An argument. -/
inductive Argument where
  /-- the rest are files -/
  | endOfOptions
  /-- an option with the value that is attached to it -/
  | option (flag : Option Flag) (value : Option String)
  | file (name : String)
  deriving Inhabited

/-- Read one argument: `--name`, `--name=value`, `-x`, `-xvalue`, `-x=value` or a file. -/
def Argument.ofString (s : String) : Argument :=
  match s.toList with
  | ['-', '-'] => endOfOptions
  | '-' :: '-' :: cs =>
    let name := Flag.ofName? (String.ofList (cs.takeWhile (· != '=')))
    match cs.dropWhile (· != '=') with
    | [] => option name none
    | _ :: value => option name (some (String.ofList value))
  | '-' :: c :: cs =>
    let flag := Flag.ofLetter? c
    match flag, cs with
    | some (.setting _), [] => option flag none
    | some (.setting _), '=' :: value => option flag (some (String.ofList value))
    | some (.setting _), value => option flag (some (String.ofList value))
    | _, _ => option flag none
  | _ => file s

/-- An argument that can be the value of the option before it. -/
def isValue (s : String) : Bool :=
  match Argument.ofString s with
  | .file _ => true
  | _ => false

/-- Go on with a draft, if there is one. -/
def continueWith (d : Option Draft) (next : Draft → Request) : Request :=
  match d with
  | none => .misuse
  | some d => next d

/-- Read the arguments one after the other. -/
def readArguments (d : Draft) : List String → Request
  | [] => d.finish
  | s :: rest =>
    match Argument.ofString s with
    | .endOfOptions => continueWith (rest.foldlM Draft.addFile d) Draft.finish
    | .file name => continueWith (d.addFile name) fun d => readArguments d rest
    | .option none _ => .misuse
    | .option (some .version) none => .showVersion
    | .option (some .help) none => .showHelp
    | .option (some (.dump x)) none => continueWith (d.addDump x) fun d => readArguments d rest
    | .option (some (.setting x)) (some value) =>
      continueWith (d.set x value) fun d => readArguments d rest
    | .option (some (.setting x)) none =>
      match rest with
      | [] => .misuse
      | value :: rest =>
        if isValue value then continueWith (d.set x value) fun d => readArguments d rest
          else .misuse
    | .option (some _) (some _) => .misuse

/-! ## Running -/

/-- Why a run stops. -/
inductive RunError where
  | unreadableConfig (path : String)
  | unreadable (path : String)
  | settings (error : SettingsError)
  /-- a source that is to be traced cannot be cut into tokens -/
  | scan (fault : ScanFault)
  deriving DecidableEq, Inhabited

/-- The wording of an error. -/
def RunError.message : RunError → String
  | unreadableConfig path => "Failed to read config file: " ++ path
  | unreadable path => "Failed to read " ++ path
  | settings error => error.message
  | scan fault => fault.message

/-- What a run writes, and how it ends. -/
structure Outcome where
  exit : Nat
  output : String := ""
  error : Option RunError := none
  deriving Inhabited

/-- The files that a run can read, by their paths. -/
abbrev Files := String → Option String

/-- The configuration of the directory that the program runs in. -/
def projectConfig : String := ".htmlvalidate.toml"

/-- The path of the configuration: the one that is asked for, that of the project, or that of the
user. -/
def configPath? (files : Files) (userConfig : Option String) (i : Invocation) : Option String :=
  match i.config with
  | some path => some path
  | none =>
    if (files projectConfig).isSome then some projectConfig
    else userConfig.filter fun path => (files path).isSome

/-- The settings of a run. -/
def settings (files : Files) (userConfig : Option String) (i : Invocation) :
    Except RunError Settings := do
  let base ← match configPath? files userConfig i with
    | none => pure Settings.recommended
    | some path =>
      match files path with
      | none => throw (.unreadableConfig path)
      | some text => (Settings.ofText path text).mapError .settings
  (i.overrides.foldlM Settings.override base).mapError .settings

/-- Lines of output. -/
def lines (l : List String) : String :=
  String.join (l.map (· ++ "\n"))

/-- The trace of a source, and the fault that cuts it short. -/
def trace (v : Vocabulary) (dump : Dump) (file source : String) : String × Option ScanFault :=
  match dump with
  | .tokens =>
    let scan := tokenize source
    (lines (scan.tokens.map (Trace.token file)), scan.failure.map ScanError.fault)
  | .events =>
    match parse v source with
    | .ok (_, events) => (lines (events.map (Trace.event file)), none)
    | .error e => ("", some e.fault)
  | .tree =>
    match parse v source with
    | .ok (d, _) => (lines (Trace.tree file d), none)
    | .error e => ("", some e.fault)

/-- Trace files one after the other, up to the first that cannot be traced. -/
def traceAll (v : Vocabulary) (files : Files) (dump : Dump) : List String → Outcome
  | [] => { exit := 0 }
  | path :: rest =>
    match files path with
    | none => { exit := 1, error := some (.unreadable path) }
    | some source =>
      match trace v dump path source with
      | (shown, some fault) => { exit := 1, output := shown, error := some (.scan fault) }
      | (shown, none) =>
        let later := traceAll v files dump rest
        { later with output := shown ++ later.output }

/-- Check files, all of which can be read. -/
def checkAll (l : Linter) (files : Files) (paths : List String) : Except RunError Report := do
  let results ← paths.mapM fun path =>
    match files path with
    | none => throw (RunError.unreadable path)
    | some source => return l.check path source
  return ⟨results⟩

/-- A report in some form. -/
def Format.render (f : Format) (r : Report) : String :=
  match f with
  | .text => r.text
  | .json => r.toJson.render ++ "\n"

/-- Check or trace files. -/
def invoke (files : Files) (userConfig : Option String) (i : Invocation) :
    Except RunError Outcome := do
  let settings ← settings files userConfig i
  match i.dump with
  | some dump =>
    let v ← (Vocabulary.htmlWith settings.elements).mapError fun e => .settings (.inheritance e)
    return traceAll v files dump i.files
  | none =>
    let linter ← (Linter.ofSettings .standard settings).mapError .settings
    let report ← checkAll linter files i.files
    return { exit := if report.isValid then 0 else 1, output := i.format.render report }

/-- The name and version of the program. -/
def version : String := "html-validate 0.1.0"

/-- How the program is used. -/
def usage : String :=
  lines [
    "Validate HTML documents against structural and content rules",
    "",
    "Usage: html-validate [OPTIONS] <FILES>...",
    "",
    "Arguments:",
    "  <FILES>...  Files to validate",
    "",
    "Options:",
    "  -c, --config <CONFIG>        Configuration file (TOML)",
    "  -f, --formatter <FORMATTER>  Output format [default: text] [possible values: text, json]",
    "      --rule <RULE=SEVERITY>   Rule overrides, e.g. `--rule no-inline-style=off`",
    "      --dump-tokens            Print the token stream instead of validating",
    "      --dump-events            Print the event stream instead of validating",
    "      --dump-tree              Print the document tree instead of validating",
    "      --log-level <LOG_LEVEL>  Log level (trace, debug, info, warn, error) [default: warn]",
    "  -h, --help                   Print help",
    "  -V, --version                Print version"]

/-- A whole run. -/
def run (files : Files) (userConfig : Option String) (arguments : List String) : Outcome :=
  match readArguments {} arguments with
  | .misuse => { exit := 2 }
  | .showVersion => { exit := 0, output := version ++ "\n" }
  | .showHelp => { exit := 0, output := usage }
  | .invoke i =>
    match invoke files userConfig i with
    | .ok outcome => outcome
    | .error e => { exit := 1, error := some e }

/-- The paths that a run may read. -/
def paths (userConfig : Option String) (arguments : List String) : List String :=
  match readArguments {} arguments with
  | .invoke i => i.config.toList ++ [projectConfig] ++ userConfig.toList ++ i.files
  | _ => []

end HtmlLint.CommandLine
