import PageScript.Json.Reader
import PageScript.Json.Shape
import PageScript.Json.Writer

/-!
# Configuration

How scripts run: whether variables have to be declared from the start, how parameters are passed
where nothing is said, and the budgets of calls within calls and of statements.

A configuration is written as JSON, as an object of its four members or as an array of them in
order.  A member that is left out takes its default; an array may leave out members at its end.
Other members of an object are ignored, but one of the four must not occur twice.
-/

namespace PageScript

structure Config where
  isExplicit : Bool
  /-- parameters are passed by reference where nothing is said -/
  byRef : Bool
  /-- how many calls of script functions may be in progress at once -/
  maxCallDepth : Nat
  /-- how many statements may be started; without a value there is no limit -/
  maxSteps : Option Nat
deriving DecidableEq

namespace Config

def default : Config := ⟨false, true, 64, none⟩

instance : Inhabited Config := ⟨default⟩

/-! ## faults -/

inductive Invalid
  | noCallDepth
  | noSteps
deriving DecidableEq

def Invalid.message : Invalid → String
  | .noCallDepth => "max_call_depth 必须大于 0"
  | .noSteps => "max_steps 必须大于 0"

inductive Error
  /-- the text is not a configuration -/
  | unreadable
  /-- the configuration allows nothing to run -/
  | invalid (why : Invalid)
deriving DecidableEq

/-- the wording of a fault; what is unreadable about a text is not told -/
def Error.message : Error → String
  | .unreadable => "配置解析失败: "
  | .invalid why => "配置验证失败: " ++ why.message

/-- both budgets have to be positive; the budget of calls is looked at first -/
def validate (c : Config) : Except Error Unit :=
  if c.maxCallDepth = 0 then .error (.invalid .noCallDepth)
  else if c.maxSteps = some 0 then .error (.invalid .noSteps)
  else .ok ()

/-! ## writing -/

def toJson (c : Config) : Json :=
  .ofFields [("explicit", .bool c.isExplicit), ("default_by_ref", .bool c.byRef),
    ("max_call_depth", .int c.maxCallDepth),
    ("max_steps", match c.maxSteps with | some n => .int n | none => .null)]

def text (c : Config) : String := c.toJson.pretty

/-! ## reading -/

/-- a budget that may be unlimited -/
def limit? : Json → Option (Option Nat)
  | .null => some none
  | j => j.natural?.map some

/-- a member that may be left out -/
def member? {α : Type} (read? : Json → Option α) (byDefault : α) : Option Json → Option α
  | none => some byDefault
  | some j => read? j

def ofMembers? (isExplicit byRef maxCallDepth maxSteps : Option Json) : Option Config := do
  some ⟨← member? Json.bool? default.isExplicit isExplicit,
    ← member? Json.bool? default.byRef byRef,
    ← member? Json.natural? default.maxCallDepth maxCallDepth,
    ← member? limit? default.maxSteps maxSteps⟩

def memberNames : List String := ["explicit", "default_by_ref", "max_call_depth", "max_steps"]

/-- no member of a configuration occurs twice -/
def noneTwice (fields : List Json.Field) : Bool :=
  memberNames.all fun name => (fields.filter fun f => f.name == name).length ≤ 1

def ofJson? : Json → Option Config
  | .obj fields =>
    if noneTwice fields then
      ofMembers? (Json.get? "explicit" fields) (Json.get? "default_by_ref" fields)
        (Json.get? "max_call_depth" fields) (Json.get? "max_steps" fields)
    else none
  | .arr items =>
    if items.length ≤ 4 then ofMembers? items[0]? items[1]? items[2]? items[3]? else none
  | _ => none

def ofJson (j : Json) : Except Error Config :=
  match ofJson? j with
  | none => .error .unreadable
  | some c => c.validate.map fun _ => c

def ofText (text : String) : Except Error Config :=
  match Json.read text with
  | none => .error .unreadable
  | some j => ofJson j

end Config

end PageScript
