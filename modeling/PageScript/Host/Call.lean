import PageScript.Host.Routine
import PageScript.Machine

/-!
# What host routines do

A routine gets the slots of its arguments and the scope that it belongs to.  It yields a value, or
refuses its arguments with a message, which becomes a fault at the place of the call.  So does a
callback of the host.
-/

namespace PageScript.Routine

def refuse (loc : Location) (message : String) : Eval Value := Eval.fail loc (.host message)

/-- an action on variables whose fault becomes a message of the host -/
def attempt {α : Type} (loc : Location) (x : Action α) : Eval α := do
  tryCatch (Eval.act loc x) fun e => Eval.fail loc (.host e.fault.message)

/-- an integer plus another one, modulo `2 ^ 64` -/
def wrappedAdd (a b : Int64) : Int64 := a + b

/-- adds one to the integer in a slot, if there is one -/
def incrementSlot (id : SlotId) : Eval Unit := do
  match ← Eval.getSlot id with
  | .integer n => Eval.setSlot id (.integer (wrappedAdd n 1))
  | _ => return ()

/-- the slot at the end of a path of members -/
def followPath (loc : Location) (slot : SlotId) : List String → Eval SlotId
  | [] => return slot
  | name :: names => do
    match ← Eval.getSlot slot with
    | .object id =>
      match (← Eval.store).field? id name with
      | some slot => followPath loc slot names
      | none => Eval.fail loc (.host "ref: field")
    | _ => Eval.fail loc (.host "ref: object")

/-- the value at the end of a path that is given as text -/
def lookAt (loc : Location) (home : ScopeId) (text : String) : Eval Value := do
  match text.splitOn "." with
  | [] => refuse loc "ref: unbound"
  | name :: names =>
    match ← attempt loc (Action.lookup .variable home name) with
    | none => refuse loc "ref: unbound"
    | some slot => do Eval.getSlot (← followPath loc slot names)

def texts (s : Store) (args : List SlotId) : List String := args.map fun id => s.text (s.slot id)

/-- what a routine does with its arguments -/
def call (routine : Routine) (loc : Location) (home : ScopeId) (args : List SlotId) :
    Eval Value := do
  let s ← Eval.store
  match routine, args with
  | .write, [slot] =>
    Eval.write (s.slot slot)
    return .empty
  | .write, _ => refuse loc ("response.write 需要 1 个参数，实际传入 " ++ toString args.length ++ " 个")
  | .ignore, _ => return .empty
  | .twice, [slot] =>
    match s.slot slot with
    | .integer n => return .integer (wrappedAdd n n)
    | v => refuse loc ("twice: " ++ v.type.name)
  | .twice, _ => refuse loc "twice: 1"
  | .count, _ => return .integer (Int64.ofNat args.length)
  | .typeName, [slot] => return .string (s.slot slot).type.name
  | .typeName, _ => refuse loc "type: 1"
  | .increment, _ =>
    args.forM incrementSlot
    return .empty
  | .swap, [a, b] =>
    Eval.setSlot a (s.slot b)
    Eval.setSlot b (s.slot a)
    return .empty
  | .swap, _ => refuse loc "swap: 2"
  | .same, [a, b] => return .boolean (a == b)
  | .same, _ => refuse loc "same: 2"
  | .fail, _ => refuse loc ("fail: " ++ "|".intercalate (texts s args))
  | .look, [slot] => lookAt loc home (s.text (s.slot slot))
  | .look, _ => refuse loc "ref: 1"
  | .assign, [name, value] =>
    attempt loc (Action.assign home (s.text (s.slot name)) (s.slot value))
    return .empty
  | .assign, _ => refuse loc "set: 2"
  | .explicit, _ =>
    match args with
    | [slot] => Eval.modifyStore (·.setExplicit home (s.slot slot == .boolean true))
    | _ => pure ()
    return .boolean (s.scope home).isExplicit
  | .callback index, _ =>
    let answer ← Eval.answer index home args
    answer.written.forM Eval.write
    match answer.result with
    | .ok v => return v
    | .error message => refuse loc message

end PageScript.Routine
