import PageScript.Eval.Expression

/-!
# Executing statements

A statement is counted before it does anything.  `exit` ends the function around it, whichever kind
it names; at the top it ends the script.

`calls n` runs script functions where `n` more calls within calls are allowed.  It is defined by
recursion on `n`, and inside a function body by recursion on the text, so every run ends.

What is held: the assigned value while its target is found, an object while a method of it takes an
assigned value, and during a call the function's scope and the activation.
-/

namespace PageScript

/-- what comes after a statement: the next one, or the end of the function -/
inductive Flow
  | normal
  | exit
deriving DecidableEq

namespace Eval

open Runner

section

variable {m : Type → Type} [Runner m]

/-! ## assignment -/

/-- gives a value to a member of an object; a method is called with the value -/
def assignMember (invoke : Invoke m) (target loc : Location) (object : ObjectId) (member : String)
    (v : Value) : m Unit := do
  match ← member? object member with
  | some slot =>
    match ← getSlot slot with
    | .function id =>
      let arg ← newSlot v
      let _ ← holding [.object object, .slot slot] (call invoke id [arg] loc)
      return ()
    | _ => setSlot slot v
  | none =>
    if ← isInstance object then fail target (.unknownMember member)
    else
      let _ ← change (·.define object member v)
      return ()

/-- assigns a value to what an expression names -/
def assign (invoke : Invoke m) (scope : ScopeId) (loc : Location) (v : Value) : Expr → m Unit
  | .path _ [] => fail loc .invalidAssignmentTarget
  | .path target [name] => holding v.refs (step (act target (Action.assign scope name v)))
  | .path target (first :: second :: more) => do
    let owner := (first :: second :: more).dropLast
    let member := (second :: more).getLast (by simp)
    let slot ← holding v.refs (resolvePath invoke scope target owner)
    let object ← holding v.refs (objectIn invoke target owner slot)
    assignMember invoke target loc object member v
  | .call _ e args => do
    let f ← holding v.refs (callee invoke scope e (eval invoke scope e))
    let slots ← holding v.refs (arguments invoke scope args)
    let last ← newSlot v
    let _ ← passing f args (call invoke f (slots ++ [last]) loc)
    return ()
  | _ => fail loc .invalidAssignmentTarget

/-! ## execution -/

mutual
/-- what a statement does once it is counted; declarations have already taken effect -/
def perform (invoke : Invoke m) (scope : ScopeId) : Stmt → m Flow
  | .function _ => return .normal
  | .class _ => return .normal
  | .dim _ => return .normal
  | .optionExplicit _ => return .normal
  | .assign loc target value => do
    let v ← eval invoke scope value
    assign invoke scope loc v target
    return .normal
  | .cond _ condition thenBlock elseBlock => do
    let v ← eval invoke scope condition
    if ← check condition.location v.truth then execute invoke scope thenBlock
    else execute invoke scope elseBlock
  | .expr _ e => do
    let _ ← evalSlot invoke scope e
    return .normal
  | .exit .. => return .exit

/-- statements one after the other, up to an `exit` -/
def executeAll (invoke : Invoke m) (scope : ScopeId) : List Stmt → m Flow
  | [] => return .normal
  | s :: ss => do
    start scope s.location
    match ← perform invoke scope s with
    | .normal => executeAll invoke scope ss
    | .exit => return .exit

/-- a block in a scope that has its declarations -/
def execute (invoke : Invoke m) (scope : ScopeId) : Block → m Flow
  | ⟨_, statements⟩ => executeAll invoke scope statements
end

/-- runs a block in a scope: its declarations, then its statements -/
def runWith (invoke : Invoke m) (scope : ScopeId) (block : Block) : m Unit := do
  modifyStore (block.hoist scope)
  let _ ← execute invoke scope block
  return ()

end

/-! ## calls of script functions -/

/-- binds parameters to the slots of arguments, or to new slots with their values -/
def bindParams (byRef : Bool) (scope : ScopeId) : List Param → List SlotId → Store → Store
  | p :: ps, arg :: args, s =>
    let (slot, s) := if p.byRef.getD byRef then (arg, s) else s.newSlot (s.slot arg)
    bindParams byRef scope ps args (s.bind scope p.name slot)
  | _, _, s => s

/-- the name under which a function's body finds its result -/
def resultName (decl : FunctionDecl) : Option String :=
  match decl.kind with
  | .function => some decl.name
  | .sub => none

/-- the activation of a function: a scope with its parameters and declarations -/
def activate (byRef : Bool) (decl : FunctionDecl) (home : ScopeId) (args : List SlotId)
    (s : Store) : ScopeId × Store :=
  let (scope, s) := s.newChild home (resultName decl)
  (scope, decl.body.hoist scope (bindParams byRef scope decl.params args s))

/-- opens the activation of a function -/
def enter (decl : FunctionDecl) (home : ScopeId) (args : List SlotId) : Eval ScopeId := do
  let byRef := (← read).config.byRef
  change (activate byRef decl home args)

/-- refuses a call within too many calls -/
def refuseCall (loc : Location) : Eval SlotId := do
  fail loc (.callDepthExceeded (← read).config.maxCallDepth)

/-- runs script functions where `n` more calls within calls are allowed -/
def calls {m : Type → Type} [Runner m] : Nat → Invoke m
  | 0 => fun _ _ _ loc => step (refuseCall loc)
  | n + 1 => fun decl home args _ => do
    let scope ← step (enter decl home args)
    let _ ← holding [.scope home, .scope scope] (execute (calls n) scope decl.body)
    step (resultSlot scope)

/-- the way in which a session runs script functions -/
def invoke (n : Nat) : Invoke Eval := calls n

/-- runs a block in a scope, with the whole budget of calls -/
def runBlock (scope : ScopeId) (block : Block) : Eval Unit := do
  runWith (invoke (← read).config.maxCallDepth) scope block

def runExpr (scope : ScopeId) (e : Expr) : Eval Value := do
  eval (invoke (← read).config.maxCallDepth) scope e

def runSlot (scope : ScopeId) (e : Expr) : Eval SlotId := do
  evalSlot (invoke (← read).config.maxCallDepth) scope e

end Eval

end PageScript
