import PageScript.Proofs.Program.Captured

/-!
# Programs survive serialization

A tree is written as a JSON value and read back as the same tree, locations included, with the
function of its operator in every operation.  Reading is tolerant: a record may hold members of
other names, anywhere in the value, and a parameter without a passing mode may leave the member out.

The kinds of places in a JSON value are listed in one table: the members of every record, each with
the kind of its content, and the alternatives of every choice.

* `Part`, `Part.members`, `Part.alternatives`   the table;
* `Part.read`            what a value in such a place is read as;
* `Json.Pads`            one value is another with further members somewhere in it;
* `Part.read_of_agree`   a record is read by its members alone;
* `Json.Pads.read_eq`    padding does not change what is read;
* `Block.serialization`  all of this for programs and expressions.
-/

namespace PageScript

/-! ## the places of a JSON value -/

inductive ExprNode
  | literal | path | binary | unary | call | new | paren
deriving DecidableEq

/-- the kinds of nodes of statements that are no declarations -/
inductive StmtNode
  | assign | cond | expr | optionExplicit | exit
deriving DecidableEq

/-- what a JSON value is read as -/
inductive Part
  /-- content without records in it -/
  | leaf
  | list (item : Part)
  | location
  | dim
  | param
  | functionDecl
  | classDecl
  | block
  | expr
  | stmt
  /-- the content of an alternative -/
  | exprNode (node : ExprNode)
  | stmtNode (node : StmtNode)

def ExprNode.tag : ExprNode → String
  | .literal => "Literal"
  | .path => "Variable"
  | .binary => "Binary"
  | .unary => "Unary"
  | .call => "Call"
  | .new => "New"
  | .paren => "Parenthesis"

def StmtNode.tag : StmtNode → String
  | .assign => "Assignment"
  | .cond => "If"
  | .expr => "Expression"
  | .optionExplicit => "OptionExplicit"
  | .exit => "Exit"

def ExprNode.members : ExprNode → List (String × Part)
  | .literal => [("location", .location), ("value", .leaf)]
  | .path => [("location", .location), ("path", .leaf)]
  | .binary => [("location", .location), ("op", .leaf), ("left", .expr), ("right", .expr)]
  | .unary => [("location", .location), ("op", .leaf), ("operand", .expr)]
  | .call => [("location", .location), ("callee", .expr), ("args", .list .expr)]
  | .new => [("location", .location), ("class_name", .leaf)]
  | .paren => [("location", .location), ("inner", .expr)]

def StmtNode.members : StmtNode → List (String × Part)
  | .assign => [("location", .location), ("target", .expr), ("value", .expr)]
  | .cond =>
    [("location", .location), ("condition", .expr), ("then_block", .block), ("else_block", .block)]
  | .expr => [("location", .location), ("expression", .expr)]
  | .optionExplicit => [("location", .location)]
  | .exit => [("location", .location), ("kind", .leaf)]

namespace Part

/-- the members of a record and what they are read as -/
def members : Part → List (String × Part)
  | .location => [("source_name", .leaf), ("line", .leaf), ("column", .leaf)]
  | .dim => [("location", .location), ("name", .leaf)]
  | .param => [("location", .location), ("name", .leaf), ("by_ref", .leaf)]
  | .functionDecl =>
    [("location", .location), ("kind", .leaf), ("name", .leaf), ("params", .list .param),
      ("body", .block)]
  | .classDecl =>
    [("location", .location), ("name", .leaf), ("fields", .list .dim),
      ("methods", .list .functionDecl)]
  | .block => [("location", .location), ("statements", .list .stmt)]
  | .exprNode node => node.members
  | .stmtNode node => node.members
  | _ => []

/-- the alternatives of a choice and what their content is read as -/
def alternatives : Part → List (String × Part)
  | .expr =>
    [.literal, .path, .binary, .unary, .call, .new, .paren].map fun node =>
      (node.tag, .exprNode node)
  | .stmt =>
    [("Function", .functionDecl), ("Class", .classDecl), ("Dim", .dim)] ++
      [.assign, .cond, .expr, .optionExplicit, .exit].map fun node => (node.tag, .stmtNode node)
  | _ => []

/-- what comes out of reading; content that is not looked into comes out as it is -/
def Result : Part → Type
  | .leaf => Json
  | .list item => List item.Result
  | .location => Location
  | .dim => Dim
  | .param => Param
  | .functionDecl => Linked.FunctionDecl
  | .classDecl => Linked.ClassDecl
  | .block => Linked.Block
  | .expr => Linked.Expr
  | .stmt => Linked.Stmt
  | .exprNode _ => Linked.Expr
  | .stmtNode _ => Linked.Stmt

/-- reads a value in such a place; the content of an alternative is read under its name -/
def read : (p : Part) → Json → Option p.Result
  | .leaf, j => some j
  | .list item, j => listOfJson? item.read j
  | .location, j => Location.ofJson? j
  | .dim, j => Dim.ofJson? j
  | .param, j => Param.ofJson? j
  | .functionDecl, j => Linked.FunctionDecl.ofJson? j
  | .classDecl, j => Linked.ClassDecl.ofJson? j
  | .block, j => Linked.Block.ofJson? j
  | .expr, j => Linked.Expr.ofJson? j
  | .stmt, j => Linked.Stmt.ofJson? j
  | .exprNode node, j => Linked.Expr.ofJson? (.obj [⟨node.tag, j⟩])
  | .stmtNode node, j => Linked.Stmt.ofJson? (.obj [⟨node.tag, j⟩])

def names (p : Part) : List String := p.members.map Prod.fst

/-- the members of a record that is given as an object or as an array -/
def members? (p : Part) (j : Json) : Option (List Json) :=
  match p with
  | .param => Param.members? j
  | p => j.members? p.names

end Part

/-! ## padding -/

/-- the second value is the first one with further members of unknown names in records, or without
the passing mode of a parameter where it is null, anywhere in it -/
inductive Json.Pads : Part → Json → Json → Prop
  | refl (p j) : Pads p j j
  | trans {p j k l} : Pads p j k → Pads p k l → Pads p j l
  | unknown {p fs gs} {f : Json.Field} : p.members ≠ [] → f.name ∉ p.names →
    Pads p (.obj (fs ++ gs)) (.obj (fs ++ f :: gs))
  | noPassing {fs gs} : Json.get? "by_ref" (fs ++ gs) = none →
    Pads .param (.obj (fs ++ ⟨"by_ref", .null⟩ :: gs)) (.obj (fs ++ gs))
  | member {p q name fs gs j k} : (name, q) ∈ p.members → Pads q j k →
    Pads p (.obj (fs ++ ⟨name, j⟩ :: gs)) (.obj (fs ++ ⟨name, k⟩ :: gs))
  | place {p q name js ks j k} : p.members[js.length]? = some (name, q) → Pads q j k →
    Pads p (.arr (js ++ j :: ks)) (.arr (js ++ k :: ks))
  | content {p q tag j k} : (tag, q) ∈ p.alternatives → Pads q j k →
    Pads p (.obj [⟨tag, j⟩]) (.obj [⟨tag, k⟩])
  | item {p js ks j k} : Pads p j k → Pads (.list p) (.arr (js ++ j :: ks)) (.arr (js ++ k :: ks))

/-! ## a record is read by its members alone -/

/-- values that are read alike, one by one -/
inductive Part.Agree : List (String × Part) → List Json → List Json → Prop
  | nil : Agree [] [] []
  | cons {name p ms j k js ks} :
    p.read j = p.read k → Agree ms js ks → Agree ((name, p) :: ms) (j :: js) (k :: ks)

namespace Part

theorem exprNode_of_members_none (node : ExprNode) {j : Json}
    (h : j.members? (Part.exprNode node).names = none) :
    Linked.Expr.ofJson? (.obj [⟨node.tag, j⟩]) = none := by
  rw [Linked.Expr.ofJson?]
  cases node <;> simp only [names, members, ExprNode.members, List.map_cons, List.map_nil] at h <;>
    simp only [Json.variant?, ExprNode.tag] <;> rw [h]

theorem stmtNode_of_members_none (node : StmtNode) {j : Json}
    (h : j.members? (Part.stmtNode node).names = none) :
    Linked.Stmt.ofJson? (.obj [⟨node.tag, j⟩]) = none := by
  rw [Linked.Stmt.ofJson?]
  cases node <;> simp only [names, members, StmtNode.members, List.map_cons, List.map_nil] at h <;>
    simp only [Json.variant?, StmtNode.tag] <;> rw [h]

theorem read_of_members_none {p : Part} {j : Json} (hp : p.members ≠ [])
    (h : p.members? j = none) : p.read j = none := by
  cases p with
  | leaf | list | expr | stmt => exact absurd rfl hp
  | location =>
    show Location.ofJson? j = none
    simp only [members?, names, members, List.map_cons, List.map_nil] at h
    rw [Location.ofJson?, h]
  | dim =>
    show Dim.ofJson? j = none
    simp only [members?, names, members, List.map_cons, List.map_nil] at h
    rw [Dim.ofJson?, h]
  | param =>
    show Param.ofJson? j = none
    rw [Param.ofJson?, show Param.members? j = none from h]
  | functionDecl =>
    show Linked.FunctionDecl.ofJson? j = none
    simp only [members?, names, members, List.map_cons, List.map_nil] at h
    rw [Linked.FunctionDecl.ofJson?, h]
  | classDecl =>
    show Linked.ClassDecl.ofJson? j = none
    simp only [members?, names, members, List.map_cons, List.map_nil] at h
    rw [Linked.ClassDecl.ofJson?, h]
  | block =>
    show Linked.Block.ofJson? j = none
    simp only [members?, names, members, List.map_cons, List.map_nil] at h
    rw [Linked.Block.ofJson?, h]
  | exprNode node => exact exprNode_of_members_none node h
  | stmtNode node => exact stmtNode_of_members_none node h

section

variable {j k : Json} {js ks : List Json}

theorem exprNode_of_agree (node : ExprNode) (hj : j.members? (Part.exprNode node).names = some js)
    (hk : k.members? (Part.exprNode node).names = some ks) (h : Agree node.members js ks) :
    Linked.Expr.ofJson? (.obj [⟨node.tag, j⟩]) = Linked.Expr.ofJson? (.obj [⟨node.tag, k⟩]) := by
  cases node with
  | literal =>
    obtain _ | ⟨hloc, _ | ⟨hvalue, _ | _⟩⟩ := h
    refine (Linked.Expr.ofJson?_literal hj).trans (.trans ?_ (Linked.Expr.ofJson?_literal hk).symm)
    rw [show Location.ofJson? _ = _ from hloc, Option.some.inj hvalue]
    rfl
  | path =>
    obtain _ | ⟨hloc, _ | ⟨hnames, _ | _⟩⟩ := h
    refine (Linked.Expr.ofJson?_path hj).trans (.trans ?_ (Linked.Expr.ofJson?_path hk).symm)
    rw [show Location.ofJson? _ = _ from hloc, Option.some.inj hnames]
    rfl
  | binary =>
    obtain _ | ⟨hloc, _ | ⟨hop, _ | ⟨hleft, _ | ⟨hright, _ | _⟩⟩⟩⟩ := h
    refine (Linked.Expr.ofJson?_binary hj).trans (.trans ?_ (Linked.Expr.ofJson?_binary hk).symm)
    rw [show Location.ofJson? _ = _ from hloc, Option.some.inj hop,
      show Linked.Expr.ofJson? _ = _ from hleft, show Linked.Expr.ofJson? _ = _ from hright]
    rfl
  | unary =>
    obtain _ | ⟨hloc, _ | ⟨hop, _ | ⟨hoperand, _ | _⟩⟩⟩ := h
    refine (Linked.Expr.ofJson?_unary hj).trans (.trans ?_ (Linked.Expr.ofJson?_unary hk).symm)
    rw [show Location.ofJson? _ = _ from hloc, Option.some.inj hop,
      show Linked.Expr.ofJson? _ = _ from hoperand]
    rfl
  | call =>
    obtain _ | ⟨hloc, _ | ⟨hcallee, _ | ⟨hargs, _ | _⟩⟩⟩ := h
    refine (Linked.Expr.ofJson?_call hj).trans (.trans ?_ (Linked.Expr.ofJson?_call hk).symm)
    rw [show Location.ofJson? _ = _ from hloc, show Linked.Expr.ofJson? _ = _ from hcallee,
      show listOfJson? Linked.Expr.ofJson? _ = _ from hargs]
    rfl
  | new =>
    obtain _ | ⟨hloc, _ | ⟨hname, _ | _⟩⟩ := h
    refine (Linked.Expr.ofJson?_new hj).trans (.trans ?_ (Linked.Expr.ofJson?_new hk).symm)
    rw [show Location.ofJson? _ = _ from hloc, Option.some.inj hname]
    rfl
  | paren =>
    obtain _ | ⟨hloc, _ | ⟨hinner, _ | _⟩⟩ := h
    refine (Linked.Expr.ofJson?_paren hj).trans (.trans ?_ (Linked.Expr.ofJson?_paren hk).symm)
    rw [show Location.ofJson? _ = _ from hloc, show Linked.Expr.ofJson? _ = _ from hinner]
    rfl

theorem stmtNode_of_agree (node : StmtNode) (hj : j.members? (Part.stmtNode node).names = some js)
    (hk : k.members? (Part.stmtNode node).names = some ks) (h : Agree node.members js ks) :
    Linked.Stmt.ofJson? (.obj [⟨node.tag, j⟩]) = Linked.Stmt.ofJson? (.obj [⟨node.tag, k⟩]) := by
  cases node with
  | assign =>
    obtain _ | ⟨hloc, _ | ⟨htarget, _ | ⟨hvalue, _ | _⟩⟩⟩ := h
    refine (Linked.Stmt.ofJson?_assign hj).trans (.trans ?_ (Linked.Stmt.ofJson?_assign hk).symm)
    rw [show Location.ofJson? _ = _ from hloc, show Linked.Expr.ofJson? _ = _ from htarget,
      show Linked.Expr.ofJson? _ = _ from hvalue]
    rfl
  | cond =>
    obtain _ | ⟨hloc, _ | ⟨hcondition, _ | ⟨hthen, _ | ⟨helse, _ | _⟩⟩⟩⟩ := h
    refine (Linked.Stmt.ofJson?_cond hj).trans (.trans ?_ (Linked.Stmt.ofJson?_cond hk).symm)
    rw [show Location.ofJson? _ = _ from hloc, show Linked.Expr.ofJson? _ = _ from hcondition,
      show Linked.Block.ofJson? _ = _ from hthen, show Linked.Block.ofJson? _ = _ from helse]
    rfl
  | expr =>
    obtain _ | ⟨hloc, _ | ⟨he, _ | _⟩⟩ := h
    refine (Linked.Stmt.ofJson?_expr hj).trans (.trans ?_ (Linked.Stmt.ofJson?_expr hk).symm)
    rw [show Location.ofJson? _ = _ from hloc, show Linked.Expr.ofJson? _ = _ from he]
    rfl
  | optionExplicit =>
    obtain _ | ⟨hloc, _ | _⟩ := h
    refine (Linked.Stmt.ofJson?_optionExplicit hj).trans
      (.trans ?_ (Linked.Stmt.ofJson?_optionExplicit hk).symm)
    rw [show Location.ofJson? _ = _ from hloc]
    rfl
  | exit =>
    obtain _ | ⟨hloc, _ | ⟨hkind, _ | _⟩⟩ := h
    refine (Linked.Stmt.ofJson?_exit hj).trans (.trans ?_ (Linked.Stmt.ofJson?_exit hk).symm)
    rw [show Location.ofJson? _ = _ from hloc, Option.some.inj hkind]
    rfl

theorem read_of_agree {p : Part} (hp : p.members ≠ []) (hj : p.members? j = some js)
    (hk : p.members? k = some ks) (h : Agree p.members js ks) : p.read j = p.read k := by
  cases p with
  | leaf | list | expr | stmt => exact absurd rfl hp
  | location =>
    obtain _ | ⟨hname, _ | ⟨hline, _ | ⟨hcolumn, _ | _⟩⟩⟩ := h
    refine (Location.ofJson?_of_members hj).trans (.trans ?_ (Location.ofJson?_of_members hk).symm)
    rw [Option.some.inj hname, Option.some.inj hline, Option.some.inj hcolumn]
  | dim =>
    obtain _ | ⟨hloc, _ | ⟨hname, _ | _⟩⟩ := h
    refine (Dim.ofJson?_of_members hj).trans (.trans ?_ (Dim.ofJson?_of_members hk).symm)
    rw [show Location.ofJson? _ = _ from hloc, Option.some.inj hname]
    rfl
  | param =>
    obtain _ | ⟨hloc, _ | ⟨hname, _ | ⟨hbyRef, _ | _⟩⟩⟩ := h
    refine (Param.ofJson?_of_members hj).trans (.trans ?_ (Param.ofJson?_of_members hk).symm)
    rw [show Location.ofJson? _ = _ from hloc, Option.some.inj hname, Option.some.inj hbyRef]
    rfl
  | functionDecl =>
    obtain _ | ⟨hloc, _ | ⟨hkind, _ | ⟨hname, _ | ⟨hparams, _ | ⟨hbody, _ | _⟩⟩⟩⟩⟩ := h
    refine (Linked.FunctionDecl.ofJson?_of_members hj).trans
      (.trans ?_ (Linked.FunctionDecl.ofJson?_of_members hk).symm)
    rw [show Location.ofJson? _ = _ from hloc, Option.some.inj hkind, Option.some.inj hname,
      show listOfJson? Param.ofJson? _ = _ from hparams, show Linked.Block.ofJson? _ = _ from hbody]
    rfl
  | classDecl =>
    obtain _ | ⟨hloc, _ | ⟨hname, _ | ⟨hfields, _ | ⟨hmethods, _ | _⟩⟩⟩⟩ := h
    refine (Linked.ClassDecl.ofJson?_of_members hj).trans
      (.trans ?_ (Linked.ClassDecl.ofJson?_of_members hk).symm)
    rw [show Location.ofJson? _ = _ from hloc, Option.some.inj hname,
      show listOfJson? Dim.ofJson? _ = _ from hfields,
      show listOfJson? Linked.FunctionDecl.ofJson? _ = _ from hmethods]
    rfl
  | block =>
    obtain _ | ⟨hloc, _ | ⟨hstatements, _ | _⟩⟩ := h
    refine (Linked.Block.ofJson?_of_members hj).trans
      (.trans ?_ (Linked.Block.ofJson?_of_members hk).symm)
    rw [show Location.ofJson? _ = _ from hloc,
      show listOfJson? Linked.Stmt.ofJson? _ = _ from hstatements]
    rfl
  | exprNode node => exact exprNode_of_agree node hj hk h
  | stmtNode node => exact stmtNode_of_agree node hj hk h

end

/-- records whose members are both missing or agree are read alike -/
theorem read_of_rel {p : Part} {j k : Json} (hp : p.members ≠ [])
    (h : Option.Rel (Agree p.members) (p.members? j) (p.members? k)) : p.read j = p.read k := by
  cases hj : p.members? j with
  | none =>
    cases hk : p.members? k with
    | none => rw [read_of_members_none hp hj, read_of_members_none hp hk]
    | some ks => rw [hj, hk] at h; cases h
  | some js =>
    cases hk : p.members? k with
    | none => rw [hj, hk] at h; cases h
    | some ks =>
      rw [hj, hk] at h
      cases h with
      | some hagree => exact read_of_agree hp hj hk hagree

/-- the member of one name is read alike in two objects -/
def SameMember (fs gs : List Json.Field) (m : String × Part) : Prop :=
  Option.Rel (fun v w => m.2.read v = m.2.read w) (Json.get? m.1 fs) (Json.get? m.1 gs)

section

variable {fs gs : List Json.Field}

theorem SameMember.of_eq {m : String × Part} (h : Json.get? m.1 fs = Json.get? m.1 gs) :
    SameMember fs gs m := by
  rw [SameMember, h]
  cases Json.get? m.1 gs with
  | none => exact .none
  | some v => exact .some rfl

theorem agree_getAll? {ms : List (String × Part)} (h : ∀ m ∈ ms, SameMember fs gs m) :
    Option.Rel (Agree ms) (Json.getAll? fs (ms.map Prod.fst))
      (Json.getAll? gs (ms.map Prod.fst)) := by
  induction ms with
  | nil => exact .some .nil
  | cons m ms ih =>
    obtain ⟨hm, hms⟩ := List.forall_mem_cons.mp h
    have hrest := ih hms
    rw [List.map_cons, Json.getAll?, Json.getAll?]
    rw [SameMember] at hm
    generalize Json.get? m.1 fs = o at hm ⊢
    generalize Json.get? m.1 gs = o' at hm ⊢
    generalize Json.getAll? fs (ms.map Prod.fst) = r at hrest ⊢
    generalize Json.getAll? gs (ms.map Prod.fst) = r' at hrest ⊢
    cases hm with
    | none => exact .none
    | some hv =>
      cases hrest with
      | none => exact .none
      | some hvs => exact .some (.cons hv hvs)

/-- a parameter: what counts of the passing mode is which one it is, or that there is none -/
theorem read_param_obj (hlocation : SameMember fs gs ("location", .location))
    (hname : SameMember fs gs ("name", .leaf))
    (hbyRef : (Json.get? "by_ref" fs).getD .null = (Json.get? "by_ref" gs).getD .null) :
    Part.param.read (.obj fs) = Part.param.read (.obj gs) := by
  have hp : Part.param.members ≠ [] := List.cons_ne_nil _ _
  apply read_of_rel hp
  have hms : ∀ m ∈ [("location", Part.location), ("name", .leaf)], SameMember fs gs m :=
    List.forall_mem_cons.mpr ⟨hlocation, List.forall_mem_singleton.mpr hname⟩
  have hrel : Option.Rel (Agree [("location", .location), ("name", .leaf)])
      (Json.getAll? fs ["location", "name"]) (Json.getAll? gs ["location", "name"]) :=
    agree_getAll? hms
  show Option.Rel _ (do some ((← Json.getAll? fs ["location", "name"]) ++ [_]))
    (do some ((← Json.getAll? gs ["location", "name"]) ++ [_]))
  rw [hbyRef]
  generalize Json.getAll? fs ["location", "name"] = r at hrel ⊢
  generalize Json.getAll? gs ["location", "name"] = r' at hrel ⊢
  cases hrel with
  | none => exact .none
  | some hagree =>
    obtain _ | ⟨hloc, _ | ⟨hname, _ | _⟩⟩ := hagree
    exact .some (.cons hloc (.cons hname (.cons rfl .nil)))

theorem read_obj {p : Part} (hp : p.members ≠ []) (h : ∀ m ∈ p.members, SameMember fs gs m) :
    p.read (.obj fs) = p.read (.obj gs) := by
  by_cases hparam : p = .param
  · subst hparam
    have hbyRef : Json.get? "by_ref" fs = Json.get? "by_ref" gs := by
      have := h ("by_ref", .leaf) (by simp [members])
      rw [SameMember] at this
      generalize Json.get? "by_ref" fs = o at this ⊢
      generalize Json.get? "by_ref" gs = o' at this ⊢
      cases this with
      | none => rfl
      | some hv => exact hv
    exact read_param_obj (h _ (by simp [members])) (h _ (by simp [members])) (by rw [hbyRef])
  · apply read_of_rel hp
    have hobj : ∀ fields, p.members? (.obj fields) = Json.getAll? fields p.names := by
      intro fields
      cases p with
      | param => exact absurd rfl hparam
      | _ => rfl
    rw [hobj, hobj]
    exact agree_getAll? h

end

/-! ## arrays -/

theorem members?_arr (p : Part) (js : List Json) :
    p.members? (.arr js) = if js.length = p.names.length then some js else none := by
  cases p <;> rfl

theorem agree_self {ms : List (String × Part)} {js : List Json} (h : js.length = ms.length) :
    Agree ms js js := by
  induction ms generalizing js with
  | nil =>
    obtain rfl := List.eq_nil_of_length_eq_zero h
    exact .nil
  | cons m ms ih =>
    cases js with
    | nil => cases h
    | cons j js => exact .cons rfl (ih (Nat.succ.inj h))

theorem agree_place {ms : List (String × Part)} {m : String × Part} {j k : Json}
    (h : m.2.read j = m.2.read k) {js ks : List Json} (hm : ms[js.length]? = some m)
    (hlength : (js ++ j :: ks).length = ms.length) :
    Agree ms (js ++ j :: ks) (js ++ k :: ks) := by
  induction js generalizing ms with
  | nil =>
    cases ms with
    | nil => cases hm
    | cons m' ms =>
      obtain rfl := Option.some.inj hm
      exact .cons h (agree_self (Nat.succ.inj hlength))
  | cons i js ih =>
    cases ms with
    | nil => cases hm
    | cons m' ms => exact .cons rfl (ih hm (Nat.succ.inj hlength))

theorem read_arr {p : Part} (hp : p.members ≠ []) {m : String × Part} {j k : Json}
    (h : m.2.read j = m.2.read k) {js ks : List Json} (hm : p.members[js.length]? = some m) :
    p.read (.arr (js ++ j :: ks)) = p.read (.arr (js ++ k :: ks)) := by
  apply read_of_rel hp
  have hlength : (js ++ k :: ks).length = (js ++ j :: ks).length := by simp
  rw [members?_arr, members?_arr, hlength]
  split
  · next heq => exact .some (agree_place h hm (heq.trans (List.length_map _)))
  · exact .none

/-! ## alternatives -/

theorem read_content {p q : Part} {tag : String} (htag : (tag, q) ∈ p.alternatives) {j k : Json}
    (h : q.read j = q.read k) : p.read (.obj [⟨tag, j⟩]) = p.read (.obj [⟨tag, k⟩]) := by
  cases p with
  | expr =>
    obtain ⟨node, -, heq⟩ := List.mem_map.mp htag
    cases heq
    exact h
  | stmt =>
    rcases List.mem_append.mp htag with hdecl | hnode
    · simp only [List.mem_cons, List.not_mem_nil, or_false, Prod.mk.injEq] at hdecl
      obtain ⟨rfl, rfl⟩ | ⟨rfl, rfl⟩ | ⟨rfl, rfl⟩ := hdecl
      · show Linked.Stmt.ofJson? _ = Linked.Stmt.ofJson? _
        rw [Linked.Stmt.ofJson?_function, Linked.Stmt.ofJson?_function,
          show Linked.FunctionDecl.ofJson? _ = _ from h]
        rfl
      · show Linked.Stmt.ofJson? _ = Linked.Stmt.ofJson? _
        rw [Linked.Stmt.ofJson?_class, Linked.Stmt.ofJson?_class,
          show Linked.ClassDecl.ofJson? _ = _ from h]
        rfl
      · show Linked.Stmt.ofJson? _ = Linked.Stmt.ofJson? _
        rw [Linked.Stmt.ofJson?_dim, Linked.Stmt.ofJson?_dim, show Dim.ofJson? _ = _ from h]
        rfl
    · obtain ⟨node, -, heq⟩ := List.mem_map.mp hnode
      cases heq
      exact h
  | _ => cases htag

/-- a name stands for one member only -/
theorem member_unique {p q q' : Part} {name : String} (h : (name, q) ∈ p.members)
    (h' : (name, q') ∈ p.members) : q = q' := by
  cases p with
  | exprNode node => cases node <;> simp [members, ExprNode.members] at h h' <;> grind
  | stmtNode node => cases node <;> simp [members, StmtNode.members] at h h' <;> grind
  | _ => simp [members] at h h' <;> grind

end Part

namespace Json

theorem get?_insert_of_ne {fs gs : List Field} {f : Field} {name : String} (h : f.name ≠ name) :
    get? name (fs ++ f :: gs) = get? name (fs ++ gs) := by
  induction fs with
  | nil => exact if_neg h
  | cons g fs ih => rw [List.cons_append, List.cons_append, get?_cons, get?_cons, ih]

theorem get?_insert_of_none {fs gs : List Field} {name : String} {v : Json}
    (h : get? name (fs ++ gs) = none) : get? name (fs ++ ⟨name, v⟩ :: gs) = some v := by
  induction fs with
  | nil => exact if_pos rfl
  | cons g fs ih =>
    rw [List.cons_append, get?_cons] at h ⊢
    split
    · next heq =>
      rw [if_pos heq] at h
      cases h
    · next hne =>
      rw [if_neg hne] at h
      exact ih h

/-- another value in the place of one: it is found under the name of this place at most -/
theorem get?_replace {fs gs : List Field} {name : String} {v w : Json} {R : Json → Json → Prop}
    (hR : ∀ u, R u u) {other : String} (h : name = other → R v w) :
    Option.Rel R (get? other (fs ++ ⟨name, v⟩ :: gs)) (get? other (fs ++ ⟨name, w⟩ :: gs)) := by
  have hself : ∀ o : Option Json, Option.Rel R o o
    | none => .none
    | some u => .some (hR u)
  induction fs with
  | nil =>
    rw [List.nil_append, List.nil_append, get?_cons, get?_cons]
    split
    · next heq => exact .some (h heq)
    · exact hself _
  | cons g fs ih =>
    rw [List.cons_append, List.cons_append, get?_cons, get?_cons]
    split
    · exact hself _
    · exact ih

/-- **Padding does not change what is read.** -/
theorem Pads.read_eq {p : Part} {j k : Json} (h : Pads p j k) : p.read j = p.read k := by
  induction h with
  | refl => rfl
  | trans _ _ ih ih' => exact ih.trans ih'
  | unknown hp hname =>
    refine Part.read_obj hp fun m hm => .of_eq (get?_insert_of_ne ?_).symm
    rintro heq
    exact hname (heq ▸ List.mem_map_of_mem hm)
  | @noPassing fs gs hnone =>
    have hsome : get? "by_ref" (fs ++ ⟨"by_ref", .null⟩ :: gs) = some .null :=
      get?_insert_of_none hnone
    refine Part.read_param_obj (.of_eq (get?_insert_of_ne ?_)) (.of_eq (get?_insert_of_ne ?_)) ?_
    · simp
    · simp
    · rw [hsome, hnone]; rfl
  | member hm _ ih =>
    refine Part.read_obj (List.ne_nil_of_mem hm) fun m hmem => ?_
    have hR : ∀ u, m.2.read u = m.2.read u := fun _ => rfl
    refine get?_replace hR ?_
    rintro rfl
    rw [← Part.member_unique hm hmem]
    exact ih
  | place hm _ ih => exact Part.read_arr (fun hnil => by rw [hnil] at hm; cases hm) ih hm
  | content htag _ ih => exact Part.read_content htag ih
  | @item p js ks j k _ ih =>
    show listOfJson? p.read _ = listOfJson? p.read _
    rw [listOfJson?_arr, listOfJson?_arr, List.mapM_append, List.mapM_append, List.mapM_cons,
      List.mapM_cons, ih]

end Json

/-! ## programs -/

/-- the name of the operator in the record of a node -/
def Json.operatorTag? (node : ExprNode) (v : Json) : Option String := do
  let members ← v.members? (Part.exprNode node).names
  (← members[1]?).unit?

theorem Json.operatorTag?_of_members (node : ExprNode) {v loc tag : Json} {rest : List Json}
    (h : v.members? (Part.exprNode node).names = some (loc :: tag :: rest)) :
    Json.operatorTag? node v = tag.unit? := by
  rw [Json.operatorTag?, h]
  rfl

/-- what is read as an operation on two operands names its operator and gets its function -/
theorem Linked.Expr.binary_of_ofJson? {j : Json} {l : Location} {op : BinaryOp}
    {combine : BinaryFunction} {a b : Linked.Expr}
    (h : Linked.Expr.ofJson? j = some (.binary l op combine a b)) :
    ∃ v, j = .obj [⟨"Binary", v⟩] ∧ Json.operatorTag? .binary v = some op.tag
      ∧ combine = op.apply := by
  obtain ⟨v, _, _, _, _, hj, hm, htag, hcombine, -, -⟩ := Linked.Expr.madeFrom h
  exact ⟨v, hj, (Json.operatorTag?_of_members .binary hm).trans htag, hcombine⟩

/-- what is read as an operation on one operand names its operator and gets its function -/
theorem Linked.Expr.unary_of_ofJson? {j : Json} {l : Location} {op : UnaryOp}
    {combine : UnaryFunction} {a : Linked.Expr}
    (h : Linked.Expr.ofJson? j = some (.unary l op combine a)) :
    ∃ v, j = .obj [⟨"Unary", v⟩] ∧ Json.operatorTag? .unary v = some op.tag
      ∧ combine = op.apply := by
  obtain ⟨v, _, _, _, hj, hm, htag, hcombine, -⟩ := Linked.Expr.madeFrom h
  exact ⟨v, hj, (Json.operatorTag?_of_members .unary hm).trans htag, hcombine⟩

/-- what a tree is read back as: the same tree with the functions of its operators -/
theorem Linked.Block.ofJson?_toJson_link {t : Linked.Block}
    (h : ∀ l ∈ t.erase.locations, l.Storable) :
    ∃ u, Linked.Block.ofJson? t.toJson = some u ∧ u.erase = t.erase ∧ u.Captured :=
  ⟨t.erase.link, Linked.Block.ofJson?_toJson h, t.erase.erase_link, t.erase.captured_link⟩

theorem Linked.Expr.ofJson?_toJson_link {t : Linked.Expr}
    (h : ∀ l ∈ t.erase.locations, l.Storable) :
    ∃ u, Linked.Expr.ofJson? t.toJson = some u ∧ u.erase = t.erase ∧ u.Captured :=
  ⟨t.erase.link, Linked.Expr.ofJson?_toJson h, t.erase.erase_link, t.erase.captured_link⟩

theorem Block.ofJson?_toJson {b : Block} (h : ∀ l ∈ b.locations, l.Storable) :
    Block.ofJson? b.toJson = some b := by
  obtain ⟨u, hread, herase, -⟩ :=
    Linked.Block.ofJson?_toJson_link (t := b.link) (by rwa [b.erase_link])
  rw [Block.ofJson?, Block.toJson, hread, Option.map_some, herase, b.erase_link]

theorem Expr.ofJson?_toJson {e : Expr} (h : ∀ l ∈ e.locations, l.Storable) :
    Expr.ofJson? e.toJson = some e := by
  obtain ⟨u, hread, herase, -⟩ :=
    Linked.Expr.ofJson?_toJson_link (t := e.link) (by rwa [e.erase_link])
  rw [Expr.ofJson?, Expr.toJson, hread, Option.map_some, herase, e.erase_link]

/-- **Programs survive serialization.**  Whatever functions the operations of a tree hold, the tree
is read back from the JSON value that it is written as, if its locations fit into 64 bits: the same
tree, locations included, in which every operation holds the function of its operator.  So does
every tree that is read from anything, and the operator is the one that the record names.  A tree
that held these functions before is read back with nothing changed.  Members of unknown names do
not matter, nor does a passing mode that is null. -/
theorem Block.serialization :
    (∀ t : Linked.Block, (∀ l ∈ t.erase.locations, l.Storable) →
      ∃ u, Linked.Block.ofJson? t.toJson = some u ∧ u.erase = t.erase ∧ u.Captured) ∧
    (∀ t : Linked.Expr, (∀ l ∈ t.erase.locations, l.Storable) →
      ∃ u, Linked.Expr.ofJson? t.toJson = some u ∧ u.erase = t.erase ∧ u.Captured) ∧
    (∀ t : Linked.Block, (∀ l ∈ t.erase.locations, l.Storable) → t.Captured →
      Linked.Block.ofJson? t.toJson = some t) ∧
    (∀ t : Linked.Expr, (∀ l ∈ t.erase.locations, l.Storable) → t.Captured →
      Linked.Expr.ofJson? t.toJson = some t) ∧
    (∀ b : Block, (∀ l ∈ b.locations, l.Storable) → Block.ofJson? b.toJson = some b) ∧
    (∀ e : Expr, (∀ l ∈ e.locations, l.Storable) → Expr.ofJson? e.toJson = some e) ∧
    (∀ j t, Linked.Block.ofJson? j = some t → t.Captured) ∧
    (∀ j t, Linked.Expr.ofJson? j = some t → t.Captured) ∧
    (∀ j l op combine a b, Linked.Expr.ofJson? j = some (.binary l op combine a b) →
      ∃ v, j = .obj [⟨"Binary", v⟩] ∧ Json.operatorTag? .binary v = some op.tag
        ∧ combine = op.apply) ∧
    (∀ j l op combine a, Linked.Expr.ofJson? j = some (.unary l op combine a) →
      ∃ v, j = .obj [⟨"Unary", v⟩] ∧ Json.operatorTag? .unary v = some op.tag
        ∧ combine = op.apply) ∧
    (∀ j k, Json.Pads .block j k →
      Linked.Block.ofJson? k = Linked.Block.ofJson? j ∧ Block.ofJson? k = Block.ofJson? j) ∧
    ∀ j k, Json.Pads .expr j k →
      Linked.Expr.ofJson? k = Linked.Expr.ofJson? j ∧ Expr.ofJson? k = Expr.ofJson? j := by
  refine ⟨fun t ht => Linked.Block.ofJson?_toJson_link ht,
    fun t ht => Linked.Expr.ofJson?_toJson_link ht, ?_, ?_,
    fun b hb => Block.ofJson?_toJson hb, fun e he => Expr.ofJson?_toJson he,
    fun j t h => Linked.Block.captured_of_ofJson? h, fun j t h => Linked.Expr.captured_of_ofJson? h,
    fun j l op combine a b h => Linked.Expr.binary_of_ofJson? h,
    fun j l op combine a h => Linked.Expr.unary_of_ofJson? h, ?_, ?_⟩
  · intro t ht hcaptured
    rw [Linked.Block.ofJson?_toJson ht, Linked.Block.link_erase hcaptured]
  · intro t ht hcaptured
    rw [Linked.Expr.ofJson?_toJson ht, Linked.Expr.link_erase hcaptured]
  · intro j k h
    have hread : Linked.Block.ofJson? k = Linked.Block.ofJson? j := h.read_eq.symm
    exact ⟨hread, congrArg (Option.map Linked.Block.erase) hread⟩
  · intro j k h
    have hread : Linked.Expr.ofJson? k = Linked.Expr.ofJson? j := h.read_eq.symm
    exact ⟨hread, congrArg (Option.map Linked.Expr.erase) hread⟩

/-- a sub with one parameter that writes its negation -/
def negatingSub : Block :=
  ⟨⟨"page", 1, 1⟩, [.function ⟨⟨"page", 1, 1⟩, .sub, "show", [⟨⟨"page", 1, 10⟩, "n", none⟩],
    ⟨⟨"page", 2, 1⟩, [.expr ⟨"page", 2, 1⟩ (.call ⟨"page", 2, 1⟩
      (.path ⟨"page", 2, 1⟩ ["response", "write"])
      [.unary ⟨"page", 2, 16⟩ .neg (.path ⟨"page", 2, 17⟩ ["n"])])]⟩⟩]⟩

/-- the same with a function in the negation that is not the one of its operator -/
def misledSub : Linked.Block :=
  ⟨⟨"page", 1, 1⟩, [.function ⟨⟨"page", 1, 1⟩, .sub, "show", [⟨⟨"page", 1, 10⟩, "n", none⟩],
    ⟨⟨"page", 2, 1⟩, [.expr ⟨"page", 2, 1⟩ (.call ⟨"page", 2, 1⟩
      (.path ⟨"page", 2, 1⟩ ["response", "write"])
      [.unary ⟨"page", 2, 16⟩ .neg Except.ok (.path ⟨"page", 2, 17⟩ ["n"])])]⟩⟩]⟩

theorem not_captured_misledSub : ¬ misledSub.Captured := by
  intro h
  obtain ⟨⟨⟨-, ⟨hneg, -⟩, -⟩, -⟩, -⟩ := h
  have hvalue : Except.ok (Value.integer 1) = UnaryOp.neg.apply (.integer 1) := congrFun hneg _
  revert hvalue
  decide

/-- its JSON value, with a remark in the record of the parameter in the place of the passing mode -/
def remarkedSub : Json :=
  .ofFields [("location", Location.toJson ⟨"page", 1, 1⟩),
    ("statements", .arr [.ofFields [("Function", .ofFields [
      ("location", Location.toJson ⟨"page", 1, 1⟩), ("kind", .str "Sub"), ("name", .str "show"),
      ("params", .arr [.ofFields [("location", Location.toJson ⟨"page", 1, 10⟩),
        ("name", .str "n"), ("remark", .arr [])]]),
      ("body", Block.toJson ⟨⟨"page", 2, 1⟩, [.expr ⟨"page", 2, 1⟩ (.call ⟨"page", 2, 1⟩
        (.path ⟨"page", 2, 1⟩ ["response", "write"])
        [.unary ⟨"page", 2, 16⟩ .neg (.path ⟨"page", 2, 17⟩ ["n"])])]⟩)])]])]

theorem Block.serialization_negatingSub :
    (¬ misledSub.Captured ∧ ∃ u, Linked.Block.ofJson? misledSub.toJson = some u ∧
      u.erase = negatingSub ∧ u.Captured) ∧
    (negatingSub.link.Captured ∧
      Linked.Block.ofJson? negatingSub.link.toJson = some negatingSub.link) ∧
    Block.ofJson? negatingSub.toJson = some negatingSub ∧
    Json.Pads .block negatingSub.toJson remarkedSub ∧
    Block.ofJson? remarkedSub = some negatingSub ∧
    Linked.Block.ofJson? remarkedSub = some negatingSub.link := by
  have hstored : Block.ofJson? negatingSub.toJson = some negatingSub :=
    Block.serialization.2.2.2.2.1 negatingSub (by decide)
  have hcaptured := negatingSub.captured_link
  have hlinked : Linked.Block.ofJson? negatingSub.link.toJson = some negatingSub.link :=
    Block.serialization.2.2.1 negatingSub.link (by rw [Block.erase_link]; decide) hcaptured
  have hparam : Json.Pads .param (Param.toJson ⟨⟨"page", 1, 10⟩, "n", none⟩)
      (.ofFields [("location", Location.toJson ⟨"page", 1, 10⟩), ("name", .str "n"),
        ("remark", .arr [])]) := by
    refine .trans (@Json.Pads.noPassing [⟨"location", _⟩, ⟨"name", _⟩] [] rfl) ?_
    exact @Json.Pads.unknown .param [⟨"location", _⟩, ⟨"name", _⟩] [] ⟨"remark", _⟩
      (List.cons_ne_nil _ _) (by decide)
  have hpads : Json.Pads .block negatingSub.toJson remarkedSub := by
    refine @Json.Pads.member .block (.list .stmt) "statements" [_] [] _ _ ?_ ?_
    · simp [Part.members]
    refine @Json.Pads.item .stmt [] [] _ _ ?_
    refine @Json.Pads.content .stmt .functionDecl "Function" _ _ (by simp [Part.alternatives]) ?_
    refine @Json.Pads.member .functionDecl (.list .param) "params" [_, _, _] [_] _ _ ?_ ?_
    · simp [Part.members]
    exact @Json.Pads.item .param [] [] _ _ hparam
  have hmisled := Block.serialization.1 misledSub (by decide)
  obtain ⟨hpadded, hpadded'⟩ := Block.serialization.2.2.2.2.2.2.2.2.2.2.1 _ _ hpads
  exact ⟨⟨not_captured_misledSub, hmisled⟩, ⟨hcaptured, hlinked⟩, hstored, hpads,
    hpadded'.trans hstored, hpadded.trans hlinked⟩

end PageScript
