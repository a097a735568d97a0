import PageScript.CommandLine.Arguments
import PageScript.CommandLine.Outcome
import PageScript.Diagnostic.Analysis
import PageScript.FileTree
import PageScript.Program.Json
import PageScript.Program.Sexpr
import PageScript.Session

/-!
# The page tool

Runs a page, checks it or prints its program.  A text starts as a template if its file has the
extension `asp`, and as code otherwise, unless the command says how it starts.

What a page writes goes to the output at once, so it is there even if the run fails later.  Reports
go to the errors.  A report names the circumstances from the outside in, and an error of a script
is followed by the same error without its stage.

* `Failure`          why a command did not succeed, with its wording;
* `Command.perform`  what a command leaves behind.
-/

namespace PageScript.CommandLine

/-! ## failures -/

inductive Failure
  | unreadableConfig (path : String) (why : ReadFault)
  | badConfig (path : String) (why : Config.Error)
  /-- the options of the command spoil the configuration -/
  | badOverrides (why : Config.Error)
  | unreadableScript (path : String) (why : ReadFault)
  | script (e : ScriptError)
  /-- a check that could not start -/
  | unchecked (why : Failure)
  /-- a check that found errors -/
  | findings (errors warnings : Nat)

def Failure.message : Failure → String
  | .unreadableConfig path why => "无法读取配置文件 " ++ path ++ ": " ++ why.message
  | .badConfig path why => "配置文件无效 " ++ path ++ ": " ++ why.message
  | .badOverrides why => why.message
  | .unreadableScript path why => "无法读取脚本 " ++ path ++ ": " ++ why.message
  | .script e => e.text ++ ": " ++ e.detail
  | .unchecked why => "解析失败: " ++ why.message
  | .findings errors warnings => toString errors ++ " 个错误, " ++ toString warnings ++ " 个警告"

def Failure.outcome (f : Failure) (output : String) (notes : List String) : Outcome :=
  ⟨1, output, lines (notes ++ ["❌ " ++ f.message])⟩

/-! ## input -/

/-- what stands at each path -/
abbrev Files := String → Entry

/-- the mode in which a text starts, where the command does not say it -/
def modeOf (path : String) : Mode := if Path.hasExtension path "asp" then .template else .code

def Command.load (c : Command) (files : Files) : Except Failure Script := do
  let text ← ((files c.file).read).mapError (.unreadableScript c.file)
  (Script.ofText c.file (c.mode.getD (modeOf c.file)) text).mapError .script

def loadConfig (files : Files) : Option String → Except Failure Config
  | none => .ok .default
  | some path => do
    let entry := files path
    if entry.isPresent then
      let text ← entry.read.mapError (.unreadableConfig path)
      (Config.ofText text).mapError (.badConfig path)
    else return .default

def Overrides.apply (o : Overrides) (c : Config) : Config where
  isExplicit := o.isExplicit || c.isExplicit
  byRef := !o.byVal && c.byRef
  maxCallDepth := o.maxCallDepth.getD c.maxCallDepth
  maxSteps := o.maxSteps <|> c.maxSteps

/-! ## commands -/

/-- the session of a page: what it writes is shown at once -/
def pageSession (config : Config) : Session :=
  ((Session.start config false).registerResponse).register "vbcrlf" (.string "\r\n")

def runPage (config : Config) (script : Script) : Outcome :=
  match (pageSession config).run script.block with
  | (.ok (), session) => .printed session.outputText
  | (.error e, session) => Failure.outcome (.script (.runtime e)) session.outputText []

/-- the configuration of a run -/
def runConfig (files : Files) (path : Option String) (o : Overrides) : Except Failure Config := do
  let config := o.apply (← loadConfig files path)
  config.validate.mapError .badOverrides
  return config

def checkPage (script : Script) : Outcome :=
  let ds := script.block.analyze
  let notes := ds.map Diagnostic.text
  let warnings := Diagnostic.count .warning ds
  if Diagnostic.hasErrors ds then
    Failure.outcome (.findings (Diagnostic.count .error ds) warnings) "" notes
  else .noted (notes ++ ["✅ " ++ script.name ++ ": " ++ toString warnings ++ " 个警告"])

/-- a check of something that is not a script -/
def refuseCheck (f : Failure) : Outcome :=
  let notes := match f with
    | .script (.parse e) => [(Diagnostic.ofParseError e).text]
    | _ => []
  Failure.outcome (.unchecked f) "" notes

/-- the printed form of a program; a source text ends its last line itself -/
def printTree (format : TreeFormat) (b : Block) : String :=
  match format with
  | .source => b.source
  | .sexpr => lines [b.sexpr]
  | .json => lines [b.toJson.pretty]

/-- what a command leaves behind -/
def Command.perform (c : Command) (files : Files) : Outcome :=
  match c.task with
  | .run o =>
    match (do return (← runConfig files c.config o, ← c.load files) : Except Failure _) with
    | .ok (config, script) => runPage config script
    | .error f => f.outcome "" []
  | .check =>
    match c.load files with
    | .ok script => checkPage script
    | .error f => refuseCheck f
  | .tree format =>
    match c.load files with
    | .ok script => .printed (printTree format script.block)
    | .error f => f.outcome "" []

/-- the files that a command looks at -/
def Command.paths (c : Command) : List String := c.file :: c.config.toList

/-- the files that a command line makes the page tool look at -/
def namedFiles (args : List String) : List String :=
  match Command.ofArgs args with
  | .ok command => command.paths
  | .error _ => []

/-- the page tool as a whole: bad arguments have an exit code of their own -/
def pageTool (files : Files) (args : List String) : Outcome :=
  match Command.ofArgs args with
  | .ok command => command.perform files
  | .error .version => .printed (lines ["asp 0.1.0"])
  | .error .badArguments => ⟨2, "", ""⟩

end PageScript.CommandLine
