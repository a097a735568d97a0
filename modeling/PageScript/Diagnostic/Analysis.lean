import PageScript.Diagnostic
import PageScript.NameTable
import PageScript.Program.OfText

/-!
# Static analysis

A script is analysed in the order of its text.  Names are entered into tables as they are declared;
a declaration of a name that its table has already is a finding, and the first one keeps its entry.

Every function body has tables of its own, one for variables and functions and one for classes; the
blocks of a condition share the tables of the block around them.  The members of a class have a
table of their own, the fields before the methods.

* `Declared.enter`      one declaration;
* `Stmt.inspect`        the findings of a statement, with the tables behind it;
* `Block.analyze`       all findings of a program: first the late `option explicit` statements.
-/

namespace PageScript

/-! ## tables of declarations -/

/-- where each name was declared first -/
abbrev Declared := NameTable Location

/-- enters a declaration; a name that is there already is a finding -/
def Declared.enter (t : Declared) (name : String) (loc : Location) : List Diagnostic × Declared :=
  match t.find? name with
  | some first => ([⟨loc, .redeclared name first⟩], t)
  | none => ([], t.insert name loc)

/-- the tables of one scope -/
structure ScopeTables where
  /-- variables and functions -/
  names : Declared
  classes : Declared

def ScopeTables.empty : ScopeTables := ⟨.empty, .empty⟩

def ScopeTables.addVariable (t : ScopeTables) (name : String) (loc : Location) :
    List Diagnostic × ScopeTables :=
  let (found, names) := Declared.enter t.names name loc
  (found, { t with names })

def ScopeTables.addClass (t : ScopeTables) (name : String) (loc : Location) :
    List Diagnostic × ScopeTables :=
  let (found, classes) := Declared.enter t.classes name loc
  (found, { t with classes })

def Declared.enterFields (t : Declared) : List Dim → List Diagnostic × Declared
  | [] => ([], t)
  | field :: fields =>
    let (found, t) := t.enter field.name field.loc
    let (more, t) := t.enterFields fields
    (found ++ more, t)

/-! ## inspection -/

/-- an `exit` in the body of a function, or outside of every function -/
def inspectExit (around : Option FunctionKind) (loc : Location) (kind : FunctionKind) :
    List Diagnostic :=
  match around with
  | some k => if k = kind then [] else [⟨loc, .wrongExit kind k⟩]
  | none => [⟨loc, .outerExit kind⟩]

mutual
/-- the findings of a statement in the body of a function or outside, with the tables behind it -/
def Stmt.inspect (around : Option FunctionKind) (t : ScopeTables) :
    Stmt → List Diagnostic × ScopeTables
  | .dim decl => t.addVariable decl.name decl.loc
  | .function ⟨loc, kind, name, _, body⟩ =>
    let (found, t) := t.addVariable name loc
    (found ++ (body.inspect (some kind) .empty).1, t)
  | .class ⟨loc, name, fields, methods⟩ =>
    let (found, t) := t.addClass name loc
    let (inFields, members) := Declared.enterFields .empty fields
    (found ++ inFields ++ FunctionDecl.inspectMethods members methods, t)
  | .cond _ _ thenBlock elseBlock =>
    let (found, t) := thenBlock.inspect around t
    let (more, t) := elseBlock.inspect around t
    (found ++ more, t)
  | .exit loc kind => (inspectExit around loc kind, t)
  | .assign .. => ([], t)
  | .expr .. => ([], t)
  | .optionExplicit _ => ([], t)

def Stmt.inspectAll (around : Option FunctionKind) (t : ScopeTables) :
    List Stmt → List Diagnostic × ScopeTables
  | [] => ([], t)
  | s :: ss =>
    let (found, t) := s.inspect around t
    let (more, t) := Stmt.inspectAll around t ss
    (found ++ more, t)

def Block.inspect (around : Option FunctionKind) (t : ScopeTables) :
    Block → List Diagnostic × ScopeTables
  | ⟨_, statements⟩ => Stmt.inspectAll around t statements

/-- the findings of the methods of a class, whose members so far are given -/
def FunctionDecl.inspectMethods (members : Declared) : List FunctionDecl → List Diagnostic
  | [] => []
  | ⟨loc, kind, name, _, body⟩ :: methods =>
    let (found, members) := members.enter name loc
    found ++ (body.inspect (some kind) .empty).1 ++ FunctionDecl.inspectMethods members methods
end

/-! ## analysis -/

/-- a statement that should have been the first -/
def Stmt.lateExplicit? : Stmt → Option Diagnostic
  | .optionExplicit loc => some ⟨loc, .lateExplicit⟩
  | _ => none

def Block.analyze (b : Block) : List Diagnostic :=
  b.statements.tail.filterMap Stmt.lateExplicit? ++ (b.inspect none .empty).1

def analyzeText (name : String) (mode : Mode) (text : String) : List Diagnostic :=
  match Block.ofText name mode text with
  | .ok block => block.analyze
  | .error e => [Diagnostic.ofParseError e]

end PageScript
