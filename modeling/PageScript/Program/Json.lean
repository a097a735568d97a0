import PageScript.Json.Shape
import PageScript.Program.Linked
import PageScript.Text.Integer

/-!
# Programs as JSON

Every node is a record with its location first, and every choice between kinds of nodes is an
alternative named for the kind.  Of an operation the operator is written, its function is not;
reading puts the function of the operator there.  Reading accepts more than writing produces:
records also as arrays, members in any order, members of other names, and a parameter without a
passing mode.

* `Linked.Expr.toJson`, `Linked.Block.toJson`      writing;
* `Linked.Expr.ofJson?`, `Linked.Block.ofJson?`    reading; the recursion ends because the parts of
                                                   a JSON value are smaller than the value;
* `Block.toJson`, `Block.ofJson?`                  the same for trees without functions.
-/

namespace PageScript

/-! ## leaves -/

def Location.toJson (l : Location) : Json :=
  .ofFields [("source_name", .str l.sourceName), ("line", .int l.line), ("column", .int l.column)]

def Location.ofJson? (j : Json) : Option Location := do
  match j.members? ["source_name", "line", "column"] with
  | some [name, line, column] => some ⟨← name.string?, ← line.natural?, ← column.natural?⟩
  | _ => none

def Literal.toJson : Literal → Json
  | .integer n => .ofFields [("Integer", .int n.toInt)]
  | .string s => .ofFields [("String", .str s)]
  | .boolean b => .ofFields [("Boolean", .bool b)]

/-- an integer of 64 bits with a sign -/
def Literal.integer? : Json → Option Literal
  | .int n => (Text.narrow n).map .integer
  | _ => none

def Literal.ofJson? (j : Json) : Option Literal :=
  match j.variant? with
  | some ("Integer", v) => Literal.integer? v
  | some ("String", v) => v.string?.map .string
  | some ("Boolean", v) => v.bool?.map .boolean
  | _ => none

def BinaryOp.tag : BinaryOp → String
  | .xor => "Xor"
  | .or => "Or"
  | .and => "And"
  | .eq => "Eq"
  | .notEq => "NotEq"
  | .less => "Less"
  | .greater => "Greater"
  | .lessEq => "LessEq"
  | .greaterEq => "GreaterEq"
  | .is => "Is"
  | .concat => "Concat"
  | .add => "Add"
  | .sub => "Sub"
  | .mod => "Mod"
  | .intDiv => "IntDiv"
  | .mul => "Mul"
  | .div => "Div"
  | .pow => "Pow"

/-- the operator with a tag -/
def BinaryOp.ofTag? (tag : String) : Option BinaryOp :=
  (precedence.flatMap OperatorGroup.operators).find? fun op => op.tag == tag

theorem BinaryOp.ofTag?_tag (op : BinaryOp) : BinaryOp.ofTag? op.tag = some op := by
  cases op <;> decide

def UnaryOp.tag : UnaryOp → String
  | .neg => "Neg"
  | .not => "Not"

def UnaryOp.ofTag? : String → Option UnaryOp
  | "Neg" => some .neg
  | "Not" => some .not
  | _ => none

theorem UnaryOp.ofTag?_tag (op : UnaryOp) : UnaryOp.ofTag? op.tag = some op := by
  cases op <;> rfl

def FunctionKind.tag : FunctionKind → String
  | .function => "Function"
  | .sub => "Sub"

def FunctionKind.ofTag? : String → Option FunctionKind
  | "Function" => some .function
  | "Sub" => some .sub
  | _ => none

theorem FunctionKind.ofTag?_tag (k : FunctionKind) : FunctionKind.ofTag? k.tag = some k := by
  cases k <;> rfl

def Dim.toJson (d : Dim) : Json := .ofFields [("location", d.loc.toJson), ("name", .str d.name)]

def Dim.ofJson? (j : Json) : Option Dim := do
  match j.members? ["location", "name"] with
  | some [loc, name] => some ⟨← Location.ofJson? loc, ← name.string?⟩
  | _ => none

/-- how a parameter is passed, or that nothing is said about it -/
def passingToJson : Option Bool → Json
  | some b => .bool b
  | none => .null

def passingOfJson? : Json → Option (Option Bool)
  | .bool b => some (some b)
  | .null => some none
  | _ => none

def Param.toJson (p : Param) : Json :=
  .ofFields [("location", p.loc.toJson), ("name", .str p.name), ("by_ref", passingToJson p.byRef)]

/-- the three members of a parameter; an object may leave the last one out -/
def Param.members? (j : Json) : Option (List Json) :=
  match j with
  | .obj fields => do
    let members ← Json.getAll? fields ["location", "name"]
    some (members ++ [(Json.get? "by_ref" fields).getD .null])
  | _ => j.members? ["location", "name", "by_ref"]

def Param.ofJson? (j : Json) : Option Param := do
  match Param.members? j with
  | some [loc, name, byRef] =>
    some ⟨← Location.ofJson? loc, ← name.string?, ← passingOfJson? byRef⟩
  | _ => none

def listOfJson? {α : Type} (item? : Json → Option α) (j : Json) : Option (List α) := do
  (← j.items?).mapM item?

/-! ## writing -/

/-- an alternative and its content -/
def tagged (tag : String) (fields : List (String × Json)) : Json :=
  .ofFields [(tag, .ofFields fields)]

namespace Linked

mutual
def Expr.toJson : Expr → Json
  | .literal loc value => tagged "Literal" [("location", loc.toJson), ("value", value.toJson)]
  | .path loc names =>
    tagged "Variable" [("location", loc.toJson), ("path", .arr (names.map .str))]
  | .binary loc op _ left right =>
    tagged "Binary" [("location", loc.toJson), ("op", .str op.tag), ("left", left.toJson),
      ("right", right.toJson)]
  | .unary loc op _ operand =>
    tagged "Unary" [("location", loc.toJson), ("op", .str op.tag), ("operand", operand.toJson)]
  | .call loc callee args =>
    tagged "Call" [("location", loc.toJson), ("callee", callee.toJson),
      ("args", .arr (Expr.toJsons args))]
  | .new loc className =>
    tagged "New" [("location", loc.toJson), ("class_name", .str className)]
  | .paren loc inner => tagged "Parenthesis" [("location", loc.toJson), ("inner", inner.toJson)]

def Expr.toJsons : List Expr → List Json
  | [] => []
  | e :: es => e.toJson :: Expr.toJsons es
end

mutual
def Stmt.toJson : Stmt → Json
  | .function decl => .ofFields [("Function", decl.toJson)]
  | .class decl => .ofFields [("Class", decl.toJson)]
  | .dim decl => .ofFields [("Dim", decl.toJson)]
  | .assign loc target value =>
    tagged "Assignment" [("location", loc.toJson), ("target", target.toJson),
      ("value", value.toJson)]
  | .cond loc condition thenBlock elseBlock =>
    tagged "If" [("location", loc.toJson), ("condition", condition.toJson),
      ("then_block", thenBlock.toJson), ("else_block", elseBlock.toJson)]
  | .expr loc e => tagged "Expression" [("location", loc.toJson), ("expression", e.toJson)]
  | .optionExplicit loc => tagged "OptionExplicit" [("location", loc.toJson)]
  | .exit loc kind => tagged "Exit" [("location", loc.toJson), ("kind", .str kind.tag)]

def Stmt.toJsons : List Stmt → List Json
  | [] => []
  | s :: ss => s.toJson :: Stmt.toJsons ss

def Block.toJson : Block → Json
  | ⟨loc, statements⟩ =>
    .ofFields [("location", loc.toJson), ("statements", .arr (Stmt.toJsons statements))]

def FunctionDecl.toJson : FunctionDecl → Json
  | ⟨loc, kind, name, params, body⟩ =>
    .ofFields [("location", loc.toJson), ("kind", .str kind.tag), ("name", .str name),
      ("params", .arr (params.map Param.toJson)), ("body", body.toJson)]

def FunctionDecl.toJsons : List FunctionDecl → List Json
  | [] => []
  | d :: ds => d.toJson :: FunctionDecl.toJsons ds

def ClassDecl.toJson : ClassDecl → Json
  | ⟨loc, name, fields, methods⟩ =>
    .ofFields [("location", loc.toJson), ("name", .str name),
      ("fields", .arr (fields.map Dim.toJson)), ("methods", .arr (FunctionDecl.toJsons methods))]
end

/-! ## reading expressions -/

mutual
def Expr.ofJson? (j : Json) : Option Expr :=
  match _hv : j.variant? with
  | some ("Literal", v) =>
    match v.members? ["location", "value"] with
    | some [loc, value] => do some (.literal (← Location.ofJson? loc) (← Literal.ofJson? value))
    | _ => none
  | some ("Variable", v) =>
    match v.members? ["location", "path"] with
    | some [loc, names] => do
      some (.path (← Location.ofJson? loc) (← listOfJson? Json.string? names))
    | _ => none
  | some ("Binary", v) =>
    match _hm : v.members? ["location", "op", "left", "right"] with
    | some [loc, op, left, right] => do
      let loc ← Location.ofJson? loc
      let op ← op.unit?.bind BinaryOp.ofTag?
      some (.binary loc op op.apply (← Expr.ofJson? left) (← Expr.ofJson? right))
    | _ => none
  | some ("Unary", v) =>
    match _hm : v.members? ["location", "op", "operand"] with
    | some [loc, op, operand] => do
      let loc ← Location.ofJson? loc
      let op ← op.unit?.bind UnaryOp.ofTag?
      some (.unary loc op op.apply (← Expr.ofJson? operand))
    | _ => none
  | some ("Call", v) =>
    match _hm : v.members? ["location", "callee", "args"] with
    | some [loc, callee, args] =>
      match _ha : args.items? with
      | some items => do
        some (.call (← Location.ofJson? loc) (← Expr.ofJson? callee) (← Expr.ofJsons? items))
      | none => none
    | _ => none
  | some ("New", v) =>
    match v.members? ["location", "class_name"] with
    | some [loc, className] => do some (.new (← Location.ofJson? loc) (← className.string?))
    | _ => none
  | some ("Parenthesis", v) =>
    match _hm : v.members? ["location", "inner"] with
    | some [loc, inner] => do some (.paren (← Location.ofJson? loc) (← Expr.ofJson? inner))
    | _ => none
  | _ => none
termination_by sizeOf j
decreasing_by
  all_goals
    have h1 := Json.variant?_lt _hv
    have h2 := Json.members?_lt _hm
    simp only [List.mem_cons, List.not_mem_nil, or_false, forall_eq_or_imp, forall_eq] at h2
    first
      | omega
      | have h3 := Json.items?_lt _ha
        omega

def Expr.ofJsons? (js : List Json) : Option (List Expr) :=
  match js with
  | [] => some []
  | j :: js => do some ((← Expr.ofJson? j) :: (← Expr.ofJsons? js))
termination_by sizeOf js
end

/-! ## reading statements -/

mutual
def Stmt.ofJson? (j : Json) : Option Stmt :=
  match _hv : j.variant? with
  | some ("Function", v) => (FunctionDecl.ofJson? v).map .function
  | some ("Class", v) => (ClassDecl.ofJson? v).map .class
  | some ("Dim", v) => (Dim.ofJson? v).map .dim
  | some ("Assignment", v) =>
    match v.members? ["location", "target", "value"] with
    | some [loc, target, value] => do
      some (.assign (← Location.ofJson? loc) (← Expr.ofJson? target) (← Expr.ofJson? value))
    | _ => none
  | some ("If", v) =>
    match _hm : v.members? ["location", "condition", "then_block", "else_block"] with
    | some [loc, condition, thenBlock, elseBlock] => do
      some (.cond (← Location.ofJson? loc) (← Expr.ofJson? condition)
        (← Block.ofJson? thenBlock) (← Block.ofJson? elseBlock))
    | _ => none
  | some ("Expression", v) =>
    match v.members? ["location", "expression"] with
    | some [loc, e] => do some (.expr (← Location.ofJson? loc) (← Expr.ofJson? e))
    | _ => none
  | some ("OptionExplicit", v) =>
    match v.members? ["location"] with
    | some [loc] => do some (.optionExplicit (← Location.ofJson? loc))
    | _ => none
  | some ("Exit", v) =>
    match v.members? ["location", "kind"] with
    | some [loc, kind] => do
      some (.exit (← Location.ofJson? loc) (← kind.unit?.bind FunctionKind.ofTag?))
    | _ => none
  | _ => none
termination_by sizeOf j
decreasing_by
  all_goals
    have h1 := Json.variant?_lt _hv
    first
      | omega
      | have h2 := Json.members?_lt _hm
        simp only [List.mem_cons, List.not_mem_nil, or_false, forall_eq_or_imp, forall_eq] at h2
        omega

def Stmt.ofJsons? (js : List Json) : Option (List Stmt) :=
  match js with
  | [] => some []
  | j :: js => do some ((← Stmt.ofJson? j) :: (← Stmt.ofJsons? js))
termination_by sizeOf js

def Block.ofJson? (j : Json) : Option Block :=
  match _hm : j.members? ["location", "statements"] with
  | some [loc, statements] =>
    match _ha : statements.items? with
    | some items => do some ⟨← Location.ofJson? loc, ← Stmt.ofJsons? items⟩
    | none => none
  | _ => none
termination_by sizeOf j
decreasing_by
  have h2 := Json.members?_lt _hm
  simp only [List.mem_cons, List.not_mem_nil, or_false, forall_eq_or_imp, forall_eq] at h2
  have h3 := Json.items?_lt _ha
  omega

def FunctionDecl.ofJson? (j : Json) : Option FunctionDecl :=
  match _hm : j.members? ["location", "kind", "name", "params", "body"] with
  | some [loc, kind, name, params, body] => do
    some ⟨← Location.ofJson? loc, ← kind.unit?.bind FunctionKind.ofTag?, ← name.string?,
      ← listOfJson? Param.ofJson? params, ← Block.ofJson? body⟩
  | _ => none
termination_by sizeOf j
decreasing_by
  have h2 := Json.members?_lt _hm
  simp only [List.mem_cons, List.not_mem_nil, or_false, forall_eq_or_imp, forall_eq] at h2
  omega

def FunctionDecl.ofJsons? (js : List Json) : Option (List FunctionDecl) :=
  match js with
  | [] => some []
  | j :: js => do some ((← FunctionDecl.ofJson? j) :: (← FunctionDecl.ofJsons? js))
termination_by sizeOf js

def ClassDecl.ofJson? (j : Json) : Option ClassDecl :=
  match _hm : j.members? ["location", "name", "fields", "methods"] with
  | some [loc, name, fields, methods] =>
    match _ha : methods.items? with
    | some items => do
      some ⟨← Location.ofJson? loc, ← name.string?, ← listOfJson? Dim.ofJson? fields,
        ← FunctionDecl.ofJsons? items⟩
    | none => none
  | _ => none
termination_by sizeOf j
decreasing_by
  have h2 := Json.members?_lt _hm
  simp only [List.mem_cons, List.not_mem_nil, or_false, forall_eq_or_imp, forall_eq] at h2
  have h3 := Json.items?_lt _ha
  omega
end

end Linked

/-! ## trees as they are written -/

def Expr.toJson (e : Expr) : Json := e.link.toJson

def Block.toJson (b : Block) : Json := b.link.toJson

def Expr.ofJson? (j : Json) : Option Expr := (Linked.Expr.ofJson? j).map Linked.Expr.erase

def Block.ofJson? (j : Json) : Option Block := (Linked.Block.ofJson? j).map Linked.Block.erase

end PageScript
