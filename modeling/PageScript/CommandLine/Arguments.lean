import PageScript.Text.Integer
import PageScript.Token.Stream

/-!
# Arguments of the page tool

A command line names one of the commands `run`, `check` and `ast` and a file.  Options are long
(`--mode code`, `--mode=code`) or short (`-m code`, `-mcode`, `-m=code`); short ones without a value
can stand together (`-qv`).  Behind `--` everything is a file.  Options of the tool itself may stand
before or behind the name of the command; if one stands on both sides, the one behind counts.

An option other than `--verbose` is given at most once on each side, and `--quiet` excludes
`--verbose` on the same side.

* `OptionName`         the options;
* `Options.set`        one option with its value, if it may be given;
* `scanTool`           the options in front of the name of the command;
* `scanCommand`        the options and files behind it;
* `Command.ofArgs`     the command that a list of arguments spells.
-/

namespace PageScript.CommandLine

/-! ## commands -/

inductive TreeFormat
  | source
  | sexpr
  | json
deriving DecidableEq

/-- settings that replace those of the configuration -/
structure Overrides where
  isExplicit : Bool
  byVal : Bool
  maxCallDepth : Option Nat
  maxSteps : Option Nat
deriving DecidableEq

inductive Task
  | run (overrides : Overrides)
  | check
  | tree (format : TreeFormat)
deriving DecidableEq

structure Command where
  task : Task
  file : String
  /-- the mode in which the text starts, where it does not follow from the file's name -/
  mode : Option Mode
  /-- the file of the configuration -/
  config : Option String
deriving DecidableEq

inductive NoCommand
  | badArguments
  /-- the version is asked for -/
  | version
deriving DecidableEq

/-! ## options -/

inductive OptionName
  | config
  | verbose
  | quiet
  | version
  | mode
  | format
  | explicit
  | byVal
  | maxCallDepth
  | maxSteps
deriving DecidableEq

namespace OptionName

def long : OptionName → String
  | .config => "config"
  | .verbose => "verbose"
  | .quiet => "quiet"
  | .version => "version"
  | .mode => "mode"
  | .format => "format"
  | .explicit => "explicit"
  | .byVal => "by-val"
  | .maxCallDepth => "max-call-depth"
  | .maxSteps => "max-steps"

def short? : OptionName → Option Char
  | .config => some 'c'
  | .verbose => some 'v'
  | .quiet => some 'q'
  | .version => some 'V'
  | .mode => some 'm'
  | .format => some 'f'
  | .explicit => none
  | .byVal => none
  | .maxCallDepth => none
  | .maxSteps => none

def takesValue : OptionName → Bool
  | .config => true
  | .mode => true
  | .format => true
  | .maxCallDepth => true
  | .maxSteps => true
  | .verbose => false
  | .quiet => false
  | .version => false
  | .explicit => false
  | .byVal => false

/-- options of the tool itself -/
def ofTool : List OptionName := [.config, .verbose, .quiet]

end OptionName

/-- options and files as they are given on one side of the command's name -/
structure Options where
  config : Option String
  verbose : Nat
  quiet : Bool
  mode : Option Mode
  format : Option TreeFormat
  isExplicit : Bool
  byVal : Bool
  maxCallDepth : Option Nat
  maxSteps : Option Nat
  files : List String

namespace Options

def empty : Options := ⟨none, 0, false, none, none, false, false, none, none, []⟩

/-- a limit: digits, perhaps behind a plus sign, for a number of 64 bits -/
def limit? (text : String) : Option Nat :=
  let digits := match text.toList with
    | '+' :: cs => cs
    | cs => cs
  (Text.readNatural digits).filter fun n => n < Text.naturals

def path? (text : String) : Option String := if text = "" then none else some text

def mode? : String → Option Mode
  | "code" => some .code
  | "template" => some .template
  | _ => none

def format? : String → Option TreeFormat
  | "source" => some .source
  | "sexpr" => some .sexpr
  | "json" => some .json
  | _ => none

/-- a value for an option that has none yet -/
def fresh {α : Type} (old new : Option α) : Option α :=
  match old with
  | some _ => none
  | none => new

/-- an option with its value; nothing if it may not be given -/
def set (o : Options) (name : OptionName) (value : String) : Option Options :=
  match name with
  | .config => (fresh o.config (path? value)).map fun p => { o with config := some p }
  | .verbose => some { o with verbose := o.verbose + 1 }
  | .quiet => if o.quiet then none else some { o with quiet := true }
  | .version => none
  | .mode => (fresh o.mode (mode? value)).map fun m => { o with mode := some m }
  | .format => (fresh o.format (format? value)).map fun f => { o with format := some f }
  | .explicit => if o.isExplicit then none else some { o with isExplicit := true }
  | .byVal => if o.byVal then none else some { o with byVal := true }
  | .maxCallDepth =>
    (fresh o.maxCallDepth (limit? value)).map fun n => { o with maxCallDepth := some n }
  | .maxSteps => (fresh o.maxSteps (limit? value)).map fun n => { o with maxSteps := some n }

/-- a file; its name is not empty -/
def addFile (o : Options) (path : String) : Option Options :=
  (path? path).map fun p => { o with files := o.files ++ [p] }

/-- `--quiet` excludes `--verbose` -/
def isConsistent (o : Options) : Bool := !(o.quiet && 0 < o.verbose)

end Options

/-! ## scanning -/

/-- what a list of arguments gives, or why it gives nothing -/
abbrev Scan (α : Type) := Except NoCommand α

def need {α : Type} : Option α → Scan α
  | some a => .ok a
  | none => .error .badArguments

/-- gives an option; the version is a request of its own -/
def giveOption (o : Options) (name : OptionName) (value : String) : Scan Options :=
  if name = .version then .error .version else need (o.set name value)

def isPlain (arg : String) : Bool := arg = "-" || !arg.startsWith "-"

/-- gives an option whose value is the next argument -/
def giveNext (o : Options) (name : OptionName) : List String → Scan (Options × List String)
  | value :: args =>
    if isPlain value then return (← giveOption o name value, args) else .error .badArguments
  | [] => .error .badArguments

def splitValue (cs : List Char) : String × Option String :=
  match cs.dropWhile (· ≠ '=') with
  | [] => (String.ofList cs, none)
  | _ :: value => (String.ofList (cs.takeWhile (· ≠ '=')), some (String.ofList value))

def scanLong (known : List OptionName) (o : Options) (cs : List Char) (args : List String) :
    Scan (Options × List String) := do
  let (long, value?) := splitValue cs
  let name ← need (known.find? fun name => name.long == long)
  match name.takesValue, value? with
  | true, some value => return (← giveOption o name value, args)
  | true, none => giveNext o name args
  | false, none => return (← giveOption o name "", args)
  | false, some _ => .error .badArguments

/-- an argument that starts with one dash: options without a value, at the end one with a value -/
def scanShort (known : List OptionName) (o : Options) (args : List String) :
    List Char → Scan (Options × List String)
  | [] => .ok (o, args)
  | c :: cs => do
    let name ← need (known.find? fun name => name.short? == some c)
    if name.takesValue then
      match cs with
      | [] => giveNext o name args
      | '=' :: value => return (← giveOption o name (String.ofList value), args)
      | value => return (← giveOption o name (String.ofList value), args)
    else scanShort known (← giveOption o name "") args cs

def scanFiles (o : Options) : List String → Scan Options
  | [] => .ok o
  | arg :: args => do scanFiles (← need (o.addFile arg)) args

def scanOption (known : List OptionName) (o : Options) (arg : String) (args : List String) :
    Scan (Options × List String) :=
  match arg.toList with
  | '-' :: '-' :: cs => scanLong known o cs args
  | cs => scanShort known o args cs.tail

/-- scanning never goes back -/
theorem giveNext_length {o o' : Options} {name : OptionName} {args rest : List String}
    (h : giveNext o name args = .ok (o', rest)) : rest.length ≤ args.length := by
  cases args with
  | nil => simp [giveNext] at h
  | cons value args =>
    simp only [giveNext] at h
    split at h
    · cases hg : giveOption o name value with
      | error e => simp [hg, bind, Except.bind] at h
      | ok x =>
        simp only [hg, bind, Except.bind, pure, Except.pure, Except.ok.injEq, Prod.mk.injEq] at h
        simp [← h.2]
    · simp at h

theorem scanLong_length {known : List OptionName} {o o' : Options} {cs : List Char}
    {args rest : List String} (h : scanLong known o cs args = .ok (o', rest)) :
    rest.length ≤ args.length := by
  simp only [scanLong, bind, Except.bind] at h
  split at h
  · simp at h
  · split at h
    · split at h
      · simp at h
      · simp only [pure, Except.pure, Except.ok.injEq, Prod.mk.injEq] at h
        simp [← h.2]
    · exact giveNext_length h
    · split at h
      · simp at h
      · simp only [pure, Except.pure, Except.ok.injEq, Prod.mk.injEq] at h
        simp [← h.2]
    · simp at h

theorem scanShort_length {known : List OptionName} {cs : List Char} {o o' : Options}
    {args rest : List String} (h : scanShort known o args cs = .ok (o', rest)) :
    rest.length ≤ args.length := by
  induction cs generalizing o with
  | nil =>
    simp only [scanShort, Except.ok.injEq, Prod.mk.injEq] at h
    simp [← h.2]
  | cons c cs ih =>
    simp only [scanShort, bind, Except.bind] at h
    split at h
    · simp at h
    · split at h
      · split at h
        · exact giveNext_length h
        · split at h
          · simp at h
          · simp only [pure, Except.pure, Except.ok.injEq, Prod.mk.injEq] at h
            simp [← h.2]
        · split at h
          · simp at h
          · simp only [pure, Except.pure, Except.ok.injEq, Prod.mk.injEq] at h
            simp [← h.2]
      · split at h
        · simp at h
        · exact ih h

theorem scanOption_length {known : List OptionName} {o o' : Options} {arg : String}
    {args rest : List String} (h : scanOption known o arg args = .ok (o', rest)) :
    rest.length ≤ args.length := by
  simp only [scanOption] at h
  split at h
  · exact scanLong_length h
  · exact scanShort_length h

def scanTool (o : Options) (args : List String) : Scan (Options × List String) :=
  match args with
  | [] => .ok (o, [])
  | arg :: args =>
    if isPlain arg then .ok (o, arg :: args)
    else if arg = "--" then .error .badArguments
    else
      match h : scanOption (.version :: OptionName.ofTool) o arg args with
      | .error e => .error e
      | .ok (o, rest) =>
        have := scanOption_length h
        scanTool o rest
termination_by args.length

def scanCommand (known : List OptionName) (o : Options) (args : List String) : Scan Options :=
  match args with
  | [] => .ok o
  | arg :: args =>
    if arg = "--" then scanFiles o args
    else if isPlain arg then
      match o.addFile arg with
      | none => .error .badArguments
      | some o => scanCommand known o args
    else
      match h : scanOption known o arg args with
      | .error e => .error e
      | .ok (o, rest) =>
        have := scanOption_length h
        scanCommand known o rest
termination_by args.length

/-! ## the command -/

/-- the options of a command, by its name, and what it does with them -/
def commandNamed? : String → Option (List OptionName × (Options → Task))
  | "run" => some ([.mode, .explicit, .byVal, .maxCallDepth, .maxSteps],
      fun o => .run ⟨o.isExplicit, o.byVal, o.maxCallDepth, o.maxSteps⟩)
  | "check" => some ([.mode], fun _ => .check)
  | "ast" => some ([.mode, .format], fun o => .tree (o.format.getD .source))
  | _ => none

/-- the command that a list of arguments spells -/
def Command.ofArgs (args : List String) : Scan Command := do
  let (tool, args) ← scanTool .empty args
  match args with
  | [] => .error .badArguments
  | name :: args =>
    let (known, task) ← need (commandNamed? name)
    let o ← scanCommand (OptionName.ofTool ++ known) .empty args
    match o.files with
    | [file] =>
      if tool.isConsistent && o.isConsistent then
        return { task := task o, file, mode := o.mode, config := o.config <|> tool.config }
      else .error .badArguments
    | _ => .error .badArguments

end PageScript.CommandLine
