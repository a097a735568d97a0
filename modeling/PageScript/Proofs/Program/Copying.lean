import PageScript.Program.Source

/-!
# Arguments in parentheses

`copying pick` puts parentheses around arguments: around every argument that is a path and stands at
a location that is picked, in every list of arguments of a program, those of an assignment to a call
included.  Locations stay as they are.

* `Block.copying_nowhere`   where nothing is picked, the program stays as it is.
-/

namespace PageScript

/-- an argument that is picked: a path at one of some locations -/
def Expr.isPicked (pick : Location → Bool) : Expr → Bool
  | .path loc _ => pick loc
  | _ => false

mutual
/-- an expression with parentheses around the arguments in it that are picked -/
def Expr.copying (pick : Location → Bool) : Expr → Expr
  | .literal loc value => .literal loc value
  | .path loc names => .path loc names
  | .binary loc op left right => .binary loc op (left.copying pick) (right.copying pick)
  | .unary loc op operand => .unary loc op (operand.copying pick)
  | .call loc callee args => .call loc (callee.copying pick) (Expr.copyingArgs pick args)
  | .new loc className => .new loc className
  | .paren loc inner => .paren loc (inner.copying pick)

def Expr.copyingArgs (pick : Location → Bool) : List Expr → List Expr
  | [] => []
  | e :: es =>
    (if e.isPicked pick then .paren e.location e else e.copying pick) :: Expr.copyingArgs pick es
end

mutual
def Stmt.copying (pick : Location → Bool) : Stmt → Stmt
  | .function decl => .function (decl.copying pick)
  | .class decl => .class (decl.copying pick)
  | .dim decl => .dim decl
  | .assign loc target value => .assign loc (target.copying pick) (value.copying pick)
  | .cond loc condition thenBlock elseBlock =>
    .cond loc (condition.copying pick) (thenBlock.copying pick) (elseBlock.copying pick)
  | .expr loc e => .expr loc (e.copying pick)
  | .optionExplicit loc => .optionExplicit loc
  | .exit loc kind => .exit loc kind

def Stmt.copyingAll (pick : Location → Bool) : List Stmt → List Stmt
  | [] => []
  | s :: ss => s.copying pick :: Stmt.copyingAll pick ss

def Block.copying (pick : Location → Bool) : Block → Block
  | ⟨loc, statements⟩ => ⟨loc, Stmt.copyingAll pick statements⟩

def FunctionDecl.copying (pick : Location → Bool) : FunctionDecl → FunctionDecl
  | ⟨loc, kind, name, params, body⟩ => ⟨loc, kind, name, params, body.copying pick⟩

def FunctionDecl.copyingAll (pick : Location → Bool) : List FunctionDecl → List FunctionDecl
  | [] => []
  | d :: ds => d.copying pick :: FunctionDecl.copyingAll pick ds

def ClassDecl.copying (pick : Location → Bool) : ClassDecl → ClassDecl
  | ⟨loc, name, fields, methods⟩ => ⟨loc, name, fields, FunctionDecl.copyingAll pick methods⟩
end

variable (pick : Location → Bool)

/-! ## what stays -/

@[simp] theorem Expr.location_copying (e : Expr) : (e.copying pick).location = e.location := by
  cases e <;> rfl

@[simp] theorem Stmt.location_copying (s : Stmt) : (s.copying pick).location = s.location := by
  cases s with
  | function d => cases d; rfl
  | «class» d => cases d; rfl
  | _ => rfl

namespace FunctionDecl

variable (d : FunctionDecl)

@[simp] theorem name_copying : (d.copying pick).name = d.name := by cases d; rfl

@[simp] theorem params_copying : (d.copying pick).params = d.params := by cases d; rfl

@[simp] theorem kind_copying : (d.copying pick).kind = d.kind := by cases d; rfl

@[simp] theorem body_copying : (d.copying pick).body = d.body.copying pick := by cases d; rfl

end FunctionDecl

@[simp] theorem ClassDecl.name_copying (d : ClassDecl) : (d.copying pick).name = d.name := by
  cases d; rfl

@[simp] theorem ClassDecl.fields_copying (d : ClassDecl) : (d.copying pick).fields = d.fields := by
  cases d; rfl

@[simp] theorem ClassDecl.methods_copying (d : ClassDecl) :
    (d.copying pick).methods = FunctionDecl.copyingAll pick d.methods := by
  cases d; rfl

/-! ## nothing picked -/

theorem Expr.isPicked_nowhere (e : Expr) : e.isPicked (fun _ => false) = false := by
  cases e <;> rfl

mutual
theorem Expr.copying_nowhere : ∀ e : Expr, e.copying (fun _ => false) = e
  | .literal .. => rfl
  | .path .. => rfl
  | .binary _ _ l r => by rw [Expr.copying, Expr.copying_nowhere l, Expr.copying_nowhere r]
  | .unary _ _ a => by rw [Expr.copying, Expr.copying_nowhere a]
  | .call _ f as => by rw [Expr.copying, Expr.copying_nowhere f, Expr.copyingArgs_nowhere as]
  | .new .. => rfl
  | .paren _ a => by rw [Expr.copying, Expr.copying_nowhere a]

theorem Expr.copyingArgs_nowhere : ∀ es : List Expr, Expr.copyingArgs (fun _ => false) es = es
  | [] => rfl
  | e :: es => by
    rw [Expr.copyingArgs, e.isPicked_nowhere, if_neg Bool.false_ne_true, Expr.copying_nowhere e,
      Expr.copyingArgs_nowhere es]
end

mutual
theorem Stmt.copying_nowhere : ∀ s : Stmt, s.copying (fun _ => false) = s
  | .function d => by rw [Stmt.copying, FunctionDecl.copying_nowhere d]
  | .class d => by rw [Stmt.copying, ClassDecl.copying_nowhere d]
  | .dim _ => rfl
  | .assign _ t v => by rw [Stmt.copying, t.copying_nowhere, v.copying_nowhere]
  | .cond _ c t e => by
    rw [Stmt.copying, c.copying_nowhere, Block.copying_nowhere t, Block.copying_nowhere e]
  | .expr _ e => by rw [Stmt.copying, e.copying_nowhere]
  | .optionExplicit _ => rfl
  | .exit .. => rfl

theorem Stmt.copyingAll_nowhere : ∀ ss : List Stmt, Stmt.copyingAll (fun _ => false) ss = ss
  | [] => rfl
  | s :: ss => by rw [Stmt.copyingAll, Stmt.copying_nowhere s, Stmt.copyingAll_nowhere ss]

/-- a program in which nothing is picked stays as it is -/
theorem Block.copying_nowhere : ∀ b : Block, b.copying (fun _ => false) = b
  | ⟨_, ss⟩ => by rw [Block.copying, Stmt.copyingAll_nowhere ss]

theorem FunctionDecl.copying_nowhere : ∀ d : FunctionDecl, d.copying (fun _ => false) = d
  | ⟨_, _, _, _, b⟩ => by rw [FunctionDecl.copying, Block.copying_nowhere b]

theorem FunctionDecl.copyingAll_nowhere :
    ∀ ds : List FunctionDecl, FunctionDecl.copyingAll (fun _ => false) ds = ds
  | [] => rfl
  | d :: ds => by
    rw [FunctionDecl.copyingAll, FunctionDecl.copying_nowhere d, FunctionDecl.copyingAll_nowhere ds]

theorem ClassDecl.copying_nowhere : ∀ d : ClassDecl, d.copying (fun _ => false) = d
  | ⟨_, _, _, ms⟩ => by rw [ClassDecl.copying, FunctionDecl.copyingAll_nowhere ms]
end

end PageScript
