import PageScript.ParseError
import PageScript.Program

/-!
# Diagnostics

What can be said about a script without running it.  A diagnostic is a finding and the place that
it is about; how grave it is follows from what was found.

* `Finding.level`      how grave a finding is;
* `Diagnostic.text`    the form `[LEVEL] name:line:column: message`;
* `Diagnostic.count`   how many diagnostics have a level.
-/

namespace PageScript

/-! ## levels -/

inductive Level
  | info
  | warning
  | error
deriving DecidableEq

def Level.text : Level → String
  | .info => "INFO"
  | .warning => "WARN"
  | .error => "ERROR"

def Level.rank : Level → Nat
  | .info => 0
  | .warning => 1
  | .error => 2

/-! ## findings -/

inductive Finding
  /-- the text is not a script -/
  | unreadable (fault : ParseFault)
  /-- `option explicit` behind other statements -/
  | lateExplicit
  /-- a name that was declared before -/
  | redeclared (name : String) (first : Location)
  /-- an `exit` of another kind than the function around it -/
  | wrongExit (kind around : FunctionKind)
  /-- an `exit` outside of every function -/
  | outerExit (kind : FunctionKind)
deriving DecidableEq

def Finding.level : Finding → Level
  | .unreadable _ => .error
  | .lateExplicit => .warning
  | .redeclared .. => .warning
  | .wrongExit .. => .error
  | .outerExit _ => .info

def Finding.message : Finding → String
  | .unreadable fault => fault.message
  | .lateExplicit => "option explicit 应为脚本的第一条语句"
  | .redeclared name first =>
    "'" ++ name ++ "' 重复声明（首次声明于 " ++ toString first.line ++ ":" ++ toString first.column ++ "）"
  | .wrongExit kind around => "'exit " ++ kind.keyword ++ "' 不能出现在 " ++ around.keyword ++ " 中"
  | .outerExit kind => "顶层的 'exit " ++ kind.keyword ++ "' 会结束整个脚本"

/-! ## diagnostics -/

structure Diagnostic where
  location : Location
  finding : Finding
deriving DecidableEq

namespace Diagnostic

def level (d : Diagnostic) : Level := d.finding.level

def message (d : Diagnostic) : String := d.finding.message

def text (d : Diagnostic) : String :=
  "[" ++ d.level.text ++ "] " ++ d.location.text ++ ": " ++ d.message

/-- a text that is not a script, as a finding -/
def ofParseError (e : ParseError) : Diagnostic := ⟨e.location, .unreadable e.fault⟩

def count (level : Level) (ds : List Diagnostic) : Nat := ds.countP fun d => d.level = level

/-- the diagnostics of a level and above -/
def atLeast (level : Level) (ds : List Diagnostic) : List Diagnostic :=
  ds.filter fun d => level.rank ≤ d.level.rank

def hasErrors (ds : List Diagnostic) : Bool := 0 < count .error ds

theorem hasErrors_iff (ds : List Diagnostic) :
    hasErrors ds = true ↔ ∃ d ∈ ds, d.level = .error := by
  simp [hasErrors, count, List.countP_pos_iff]

end Diagnostic

end PageScript
