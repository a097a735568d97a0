import PageScript.CommandLine.Page
import PageScript.CommandLine.Survey

/-!
# The program

Reads the files that the arguments name, lets the page tool or the survey tool do its work on them,
and writes its outcome.  The survey tool answers to its command `script-check`, the page tool to
everything else.
-/

namespace PageScript.CommandLine

/-- what stands at a path; what is there and cannot be read as a file counts as a directory -/
def entryAt (path : String) : BaseIO Entry := do
  match ← (IO.FS.readFile path).toBaseIO with
  | .ok text => return .file text
  | .error (.noFileOrDirectory ..) => return .absent .missing
  | .error _ => return .directory []

/-- what stands at some paths; nothing else is known -/
def filesAt (paths : List String) : BaseIO Files := do
  let entries ← paths.mapM fun path => return (path, ← entryAt path)
  return fun path => (entries.lookup path).getD (.absent .missing)

/-- the tool that the arguments ask for, on the files that they name -/
def outcomeOf (args : List String) : BaseIO Outcome := do
  match args with
  | "script-check" :: rest => return surveyTool (← filesAt [rest.headD scriptsDirectory]) args
  | _ => return pageTool (← filesAt (namedFiles args)) args

end PageScript.CommandLine

def main (args : List String) : IO UInt32 := do
  let outcome ← PageScript.CommandLine.outcomeOf args
  IO.print outcome.output
  IO.eprint outcome.errors
  return outcome.code.toUInt32
