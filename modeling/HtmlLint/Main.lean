import HtmlLint.CommandLine

/-! # The program

Reads the files that a run may need, runs, and writes what the run says. -/

namespace HtmlLint.Program

/-- The text of a file; none if it cannot be read. -/
def readFile? (path : String) : IO (Option String) := do
  try
    return some (← IO.FS.readFile path)
  catch _ =>
    return none

/-- The path of the user's configuration. -/
def userConfig? : IO (Option String) := do
  let directory ← match ← IO.getEnv "XDG_CONFIG_HOME" with
    | some path => pure (some path)
    | none => pure ((← IO.getEnv "HOME").map (· ++ "/.config"))
  return directory.map (· ++ "/html-validate/config.toml")

end HtmlLint.Program

/-- Run with the arguments of the command line. -/
def main (arguments : List String) : IO UInt32 := do
  let userConfig ← HtmlLint.Program.userConfig?
  let contents ← (HtmlLint.CommandLine.paths userConfig arguments).mapM fun path =>
    return (path, ← HtmlLint.Program.readFile? path)
  let outcome :=
    HtmlLint.CommandLine.run (fun path => (contents.lookup path).join) userConfig arguments
  IO.print outcome.output
  match outcome.error with
  | some e => IO.eprintln ("Error: " ++ e.message)
  | none => if outcome.exit == 2 then IO.eprintln HtmlLint.CommandLine.usage
  return outcome.exit.toUInt32
