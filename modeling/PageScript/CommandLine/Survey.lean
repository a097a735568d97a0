import PageScript.CommandLine.Outcome
import PageScript.Diagnostic.Analysis
import PageScript.FileTree

/-!
# The survey tool

Checks every script below a directory, or one file.  Scripts have the extension `asp`, for
templates, or `vbs`, for code; a file that is named itself is checked whatever its extension.
Scripts below a directory are checked in the order of their paths, name by name.

* `scriptsAt`     the scripts that a path stands for;
* `survey`        the report over a list of scripts;
* `surveyTool`    the tool as a whole.
-/

namespace PageScript.CommandLine

/-! ## scripts -/

structure Candidate where
  path : String
  text : String
deriving DecidableEq

def isTemplate (path : String) : Bool := Path.hasExtension path "asp"

def isScript (path : String) : Bool := isTemplate path || Path.hasExtension path "vbs"

/-- the order of paths: name by name, a path before those that go on from it -/
def namesInOrder : List String → List String → Bool
  | [], _ => true
  | _ :: _, [] => false
  | a :: as, b :: bs => a < b || (a == b && namesInOrder as bs)

def scriptsBelow (root : String) (files : List FileBelow) : List Candidate :=
  let inOrder := files.mergeSort fun a b => namesInOrder a.names b.names
  (inOrder.map fun f => ⟨Path.joinAll root f.names, f.text⟩).filter fun c => isScript c.path

def scriptsAt (root : String) : Entry → Option (List Candidate)
  | .file text => some [⟨root, text⟩]
  | .directory files => some (scriptsBelow root files)
  | .absent _ => none

/-! ## the report -/

def Candidate.parse (c : Candidate) : Except ParseError Block :=
  Block.ofText c.path (if isTemplate c.path then .template else .code) c.text

def Candidate.isUnreadable (c : Candidate) : Bool :=
  match c.parse with
  | .ok _ => false
  | .error _ => true

def Candidate.diagnostics (c : Candidate) : List Diagnostic :=
  match c.parse with
  | .ok block => block.analyze
  | .error e => [Diagnostic.ofParseError e]

def verdict (errors warnings : Nat) : String :=
  if 0 < errors then "❌ " ++ toString errors ++ " 个错误, " ++ toString warnings ++ " 个警告"
  else if 0 < warnings then "⚠️  0 个错误, " ++ toString warnings ++ " 个警告"
  else "✅ 检查通过，无错误"

/-- what stands in front of every failure of the tool -/
def refusal (message : String) : String := "xtask error: " ++ message

def survey (scripts : List Candidate) : Outcome :=
  let ds := scripts.flatMap Candidate.diagnostics
  let report := ["==> 检查 " ++ toString scripts.length ++ " 个脚本文件...", "",
      "─────────────────────────────────────────────────────",
      "检查完成: " ++ toString scripts.length ++ " 个脚本（"
        ++ toString (scripts.countP Candidate.isUnreadable) ++ " 个无法解析）", ""]
    ++ ds.map Diagnostic.text
    ++ ["", verdict (Diagnostic.count .error ds) (Diagnostic.count .warning ds)]
  if Diagnostic.hasErrors ds then ⟨1, "", lines (report ++ [refusal "脚本检查发现错误"])⟩
  else .noted report

/-! ## the tool -/

/-- where scripts are looked for if no path is given -/
def scriptsDirectory : String := "scripts"

def noScripts (path : Option String) : Outcome :=
  let message := match path with
    | some path => "路径不存在: " ++ path
    | none => "默认脚本目录不存在: " ++ scriptsDirectory ++ "\n请在 workspace 根目录运行，或指定脚本路径"
  ⟨1, "", lines [refusal message]⟩

/-- checks what a path stands for -/
def surveyPath (files : String → Entry) (path : Option String) : Outcome :=
  let root := path.getD scriptsDirectory
  match scriptsAt root (files root) with
  | none => noScripts path
  | some [] => .noted ["未找到脚本文件（.asp / .vbs）"]
  | some scripts => survey scripts

def surveyHelp : String :=
"xtask - 开发辅助工具

USAGE:
  cargo xtask <command>

COMMANDS:
  check-all       fmt、clippy、test，然后检查 scripts/
  script-check    检查脚本文件

SCRIPT-CHECK:
  cargo xtask script-check [path]

  不带参数：检查 scripts/ 下所有 .asp / .vbs 文件
  带路径参数：检查指定文件或目录
  .asp 按模板解析，.vbs 按纯脚本解析

  检查内容：
    - 脚本语法错误
    - 重复声明、exit 与所在函数不匹配等静态诊断

ALIASES (in .cargo/config.toml):
  cargo check-all     -> cargo xtask check-all
  cargo script-check  -> cargo xtask script-check
"

/-- the survey tool as a whole -/
def surveyTool (files : String → Entry) : List String → Outcome
  | [] => .noted [surveyHelp]
  | "script-check" :: args => surveyPath files args.head?
  | name :: _ =>
    if name = "help" ∨ name = "-h" ∨ name = "--help" then .noted [surveyHelp]
    else ⟨1, "", lines [refusal ("unknown xtask subcommand: " ++ name)]⟩

end PageScript.CommandLine
