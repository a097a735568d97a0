import PageScript.Program
import PageScript.Value.Operation

/-!
# Programs with the functions of their operators

Every operation of a tree holds the function that carries it out, put there when the node is made.
The field can be set to any function, but only the operator counts: trees are compared without the
functions, and nothing of them is written down.

* `Linked.Expr`, `Linked.Stmt`, `Linked.Block`, …   trees with a function in every operation;
* `Linked.Block.erase`             what is left without the functions: equal trees are those of
                                   which this is equal;
* `Block.link`                     every operation gets the function of its operator;
* `Linked.Block.Captured`          every operation holds the function of its operator;
* `Block.erase_link`, `Block.captured_link`, `Linked.Block.link_erase`
                                   linking makes the captured trees, one for every program.
-/

namespace PageScript

/-- what carries out an operation on two operands -/
abbrev BinaryFunction := Value → Value → Except RuntimeFault Value

/-- what carries out an operation on one operand -/
abbrev UnaryFunction := Value → Except RuntimeFault Value

/-! ## trees -/

namespace Linked

inductive Expr
  | literal (loc : Location) (value : Literal)
  | path (loc : Location) (names : List String)
  | binary (loc : Location) (op : BinaryOp) (combine : BinaryFunction) (left right : Expr)
  | unary (loc : Location) (op : UnaryOp) (combine : UnaryFunction) (operand : Expr)
  | call (loc : Location) (callee : Expr) (args : List Expr)
  | new (loc : Location) (className : String)
  | paren (loc : Location) (inner : Expr)

mutual
inductive Stmt
  | function (decl : FunctionDecl)
  | class (decl : ClassDecl)
  | dim (decl : Dim)
  | assign (loc : Location) (target value : Expr)
  | cond (loc : Location) (condition : Expr) (thenBlock elseBlock : Block)
  | expr (loc : Location) (expression : Expr)
  | optionExplicit (loc : Location)
  | exit (loc : Location) (kind : FunctionKind)

structure Block where
  loc : Location
  statements : List Stmt

structure FunctionDecl where
  loc : Location
  kind : FunctionKind
  name : String
  params : List Param
  body : Block

structure ClassDecl where
  loc : Location
  name : String
  fields : List Dim
  methods : List FunctionDecl
end

/-! ## without the functions -/

mutual
def Expr.erase : Expr → PageScript.Expr
  | .literal loc value => .literal loc value
  | .path loc names => .path loc names
  | .binary loc op _ left right => .binary loc op left.erase right.erase
  | .unary loc op _ operand => .unary loc op operand.erase
  | .call loc callee args => .call loc callee.erase (Expr.eraseAll args)
  | .new loc className => .new loc className
  | .paren loc inner => .paren loc inner.erase

def Expr.eraseAll : List Expr → List PageScript.Expr
  | [] => []
  | e :: es => e.erase :: Expr.eraseAll es
end

mutual
def Stmt.erase : Stmt → PageScript.Stmt
  | .function decl => .function decl.erase
  | .class decl => .class decl.erase
  | .dim decl => .dim decl
  | .assign loc target value => .assign loc target.erase value.erase
  | .cond loc condition thenBlock elseBlock =>
    .cond loc condition.erase thenBlock.erase elseBlock.erase
  | .expr loc e => .expr loc e.erase
  | .optionExplicit loc => .optionExplicit loc
  | .exit loc kind => .exit loc kind

def Stmt.eraseAll : List Stmt → List PageScript.Stmt
  | [] => []
  | s :: ss => s.erase :: Stmt.eraseAll ss

def Block.erase : Block → PageScript.Block
  | ⟨loc, statements⟩ => ⟨loc, Stmt.eraseAll statements⟩

def FunctionDecl.erase : FunctionDecl → PageScript.FunctionDecl
  | ⟨loc, kind, name, params, body⟩ => ⟨loc, kind, name, params, body.erase⟩

def FunctionDecl.eraseAll : List FunctionDecl → List PageScript.FunctionDecl
  | [] => []
  | d :: ds => d.erase :: FunctionDecl.eraseAll ds

def ClassDecl.erase : ClassDecl → PageScript.ClassDecl
  | ⟨loc, name, fields, methods⟩ => ⟨loc, name, fields, FunctionDecl.eraseAll methods⟩
end

/-! ## every operation holds the function of its operator -/

mutual
def Expr.Captured : Expr → Prop
  | .binary _ op combine left right => combine = op.apply ∧ left.Captured ∧ right.Captured
  | .unary _ op combine operand => combine = op.apply ∧ operand.Captured
  | .call _ callee args => callee.Captured ∧ Expr.AllCaptured args
  | .paren _ inner => inner.Captured
  | .literal .. | .path .. | .new .. => True

def Expr.AllCaptured : List Expr → Prop
  | [] => True
  | e :: es => e.Captured ∧ Expr.AllCaptured es
end

mutual
def Stmt.Captured : Stmt → Prop
  | .function decl => decl.Captured
  | .class decl => decl.Captured
  | .assign _ target value => target.Captured ∧ value.Captured
  | .cond _ condition thenBlock elseBlock =>
    condition.Captured ∧ thenBlock.Captured ∧ elseBlock.Captured
  | .expr _ e => e.Captured
  | .dim _ | .optionExplicit _ | .exit .. => True

def Stmt.AllCaptured : List Stmt → Prop
  | [] => True
  | s :: ss => s.Captured ∧ Stmt.AllCaptured ss

def Block.Captured : Block → Prop
  | ⟨_, statements⟩ => Stmt.AllCaptured statements

def FunctionDecl.Captured : FunctionDecl → Prop
  | ⟨_, _, _, _, body⟩ => body.Captured

def FunctionDecl.AllCaptured : List FunctionDecl → Prop
  | [] => True
  | d :: ds => d.Captured ∧ FunctionDecl.AllCaptured ds

def ClassDecl.Captured : ClassDecl → Prop
  | ⟨_, _, _, methods⟩ => FunctionDecl.AllCaptured methods
end

end Linked

/-! ## linking -/

mutual
def Expr.link : Expr → Linked.Expr
  | .literal loc value => .literal loc value
  | .path loc names => .path loc names
  | .binary loc op left right => .binary loc op op.apply left.link right.link
  | .unary loc op operand => .unary loc op op.apply operand.link
  | .call loc callee args => .call loc callee.link (Expr.linkAll args)
  | .new loc className => .new loc className
  | .paren loc inner => .paren loc inner.link

def Expr.linkAll : List Expr → List Linked.Expr
  | [] => []
  | e :: es => e.link :: Expr.linkAll es
end

mutual
def Stmt.link : Stmt → Linked.Stmt
  | .function decl => .function decl.link
  | .class decl => .class decl.link
  | .dim decl => .dim decl
  | .assign loc target value => .assign loc target.link value.link
  | .cond loc condition thenBlock elseBlock =>
    .cond loc condition.link thenBlock.link elseBlock.link
  | .expr loc e => .expr loc e.link
  | .optionExplicit loc => .optionExplicit loc
  | .exit loc kind => .exit loc kind

def Stmt.linkAll : List Stmt → List Linked.Stmt
  | [] => []
  | s :: ss => s.link :: Stmt.linkAll ss

def Block.link : Block → Linked.Block
  | ⟨loc, statements⟩ => ⟨loc, Stmt.linkAll statements⟩

def FunctionDecl.link : FunctionDecl → Linked.FunctionDecl
  | ⟨loc, kind, name, params, body⟩ => ⟨loc, kind, name, params, body.link⟩

def FunctionDecl.linkAll : List FunctionDecl → List Linked.FunctionDecl
  | [] => []
  | d :: ds => d.link :: FunctionDecl.linkAll ds

def ClassDecl.link : ClassDecl → Linked.ClassDecl
  | ⟨loc, name, fields, methods⟩ => ⟨loc, name, fields, FunctionDecl.linkAll methods⟩
end

/-! ### linking adds functions only -/

mutual
theorem Expr.erase_link : ∀ e : Expr, e.link.erase = e
  | .literal .. | .path .. | .new .. => rfl
  | .binary _ _ a b => by rw [link, Linked.Expr.erase, erase_link a, erase_link b]
  | .unary _ _ a => by rw [link, Linked.Expr.erase, erase_link a]
  | .call _ f as => by rw [link, Linked.Expr.erase, erase_link f, eraseAll_linkAll as]
  | .paren _ a => by rw [link, Linked.Expr.erase, erase_link a]

theorem Expr.eraseAll_linkAll : ∀ es : List Expr, Linked.Expr.eraseAll (Expr.linkAll es) = es
  | [] => rfl
  | e :: es => by rw [linkAll, Linked.Expr.eraseAll, erase_link e, eraseAll_linkAll es]
end

mutual
theorem Stmt.erase_link : ∀ s : Stmt, s.link.erase = s
  | .function d => by rw [Stmt.link, Linked.Stmt.erase, FunctionDecl.erase_link d]
  | .class d => by rw [Stmt.link, Linked.Stmt.erase, ClassDecl.erase_link d]
  | .dim _ | .optionExplicit _ | .exit .. => rfl
  | .assign _ t v => by rw [Stmt.link, Linked.Stmt.erase, Expr.erase_link t, Expr.erase_link v]
  | .cond _ c t e => by
    rw [Stmt.link, Linked.Stmt.erase, Expr.erase_link c, Block.erase_link t, Block.erase_link e]
  | .expr _ e => by rw [Stmt.link, Linked.Stmt.erase, Expr.erase_link e]

theorem Stmt.eraseAll_linkAll : ∀ ss : List Stmt, Linked.Stmt.eraseAll (Stmt.linkAll ss) = ss
  | [] => rfl
  | s :: ss => by
    rw [Stmt.linkAll, Linked.Stmt.eraseAll, Stmt.erase_link s, Stmt.eraseAll_linkAll ss]

theorem Block.erase_link : ∀ b : Block, b.link.erase = b
  | ⟨_, ss⟩ => by rw [Block.link, Linked.Block.erase, Stmt.eraseAll_linkAll ss]

theorem FunctionDecl.erase_link : ∀ d : FunctionDecl, d.link.erase = d
  | ⟨_, _, _, _, b⟩ => by rw [FunctionDecl.link, Linked.FunctionDecl.erase, Block.erase_link b]

theorem FunctionDecl.eraseAll_linkAll :
    ∀ ds : List FunctionDecl, Linked.FunctionDecl.eraseAll (FunctionDecl.linkAll ds) = ds
  | [] => rfl
  | d :: ds => by
    rw [FunctionDecl.linkAll, Linked.FunctionDecl.eraseAll, FunctionDecl.erase_link d,
      FunctionDecl.eraseAll_linkAll ds]

theorem ClassDecl.erase_link : ∀ d : ClassDecl, d.link.erase = d
  | ⟨_, _, _, ms⟩ => by
    rw [ClassDecl.link, Linked.ClassDecl.erase, FunctionDecl.eraseAll_linkAll ms]
end

/-! ### linking captures -/

mutual
theorem Expr.captured_link : ∀ e : Expr, e.link.Captured
  | .literal .. | .path .. | .new .. => trivial
  | .binary _ _ a b => ⟨rfl, captured_link a, captured_link b⟩
  | .unary _ _ a => ⟨rfl, captured_link a⟩
  | .call _ f as => ⟨captured_link f, allCaptured_linkAll as⟩
  | .paren _ a => captured_link a

theorem Expr.allCaptured_linkAll : ∀ es : List Expr, Linked.Expr.AllCaptured (Expr.linkAll es)
  | [] => trivial
  | e :: es => ⟨captured_link e, allCaptured_linkAll es⟩
end

mutual
theorem Stmt.captured_link : ∀ s : Stmt, s.link.Captured
  | .function d => FunctionDecl.captured_link d
  | .class d => ClassDecl.captured_link d
  | .dim _ | .optionExplicit _ | .exit .. => trivial
  | .assign _ t v => ⟨Expr.captured_link t, Expr.captured_link v⟩
  | .cond _ c t e => ⟨Expr.captured_link c, Block.captured_link t, Block.captured_link e⟩
  | .expr _ e => Expr.captured_link e

theorem Stmt.allCaptured_linkAll : ∀ ss : List Stmt, Linked.Stmt.AllCaptured (Stmt.linkAll ss)
  | [] => trivial
  | s :: ss => ⟨Stmt.captured_link s, Stmt.allCaptured_linkAll ss⟩

theorem Block.captured_link : ∀ b : Block, b.link.Captured
  | ⟨_, ss⟩ => Stmt.allCaptured_linkAll ss

theorem FunctionDecl.captured_link : ∀ d : FunctionDecl, d.link.Captured
  | ⟨_, _, _, _, b⟩ => Block.captured_link b

theorem FunctionDecl.allCaptured_linkAll :
    ∀ ds : List FunctionDecl, Linked.FunctionDecl.AllCaptured (FunctionDecl.linkAll ds)
  | [] => trivial
  | d :: ds => ⟨FunctionDecl.captured_link d, FunctionDecl.allCaptured_linkAll ds⟩

theorem ClassDecl.captured_link : ∀ d : ClassDecl, d.link.Captured
  | ⟨_, _, _, ms⟩ => FunctionDecl.allCaptured_linkAll ms
end

/-! ### captured trees are those that linking makes -/

namespace Linked

mutual
theorem Expr.link_erase : ∀ {t : Expr}, t.Captured → t.erase.link = t
  | .literal .., _ | .path .., _ | .new .., _ => rfl
  | .binary _ _ _ a b, ⟨hcombine, ha, hb⟩ => by
    rw [erase, PageScript.Expr.link, link_erase ha, link_erase hb, hcombine]
  | .unary _ _ _ a, ⟨hcombine, ha⟩ => by rw [erase, PageScript.Expr.link, link_erase ha, hcombine]
  | .call _ f as, ⟨hf, has⟩ => by
    rw [erase, PageScript.Expr.link, link_erase hf, linkAll_eraseAll has]
  | .paren _ a, ha => by
    rw [erase, PageScript.Expr.link, link_erase (show a.Captured from ha)]

theorem Expr.linkAll_eraseAll :
    ∀ {ts : List Expr}, AllCaptured ts → PageScript.Expr.linkAll (eraseAll ts) = ts
  | [], _ => rfl
  | t :: ts, ⟨ht, hts⟩ => by
    rw [eraseAll, PageScript.Expr.linkAll, link_erase ht, linkAll_eraseAll hts]
end

mutual
theorem Stmt.link_erase : ∀ {t : Stmt}, t.Captured → t.erase.link = t
  | .function d, hd => congrArg Stmt.function (FunctionDecl.link_erase hd)
  | .class d, hd => congrArg Stmt.class (ClassDecl.link_erase hd)
  | .dim _, _ | .optionExplicit _, _ | .exit .., _ => rfl
  | .assign _ t v, ⟨ht, hv⟩ => by
    rw [Stmt.erase, PageScript.Stmt.link, Expr.link_erase ht, Expr.link_erase hv]
  | .cond _ c t e, ⟨hc, ht, he⟩ => by
    rw [Stmt.erase, PageScript.Stmt.link, Expr.link_erase hc, Block.link_erase ht,
      Block.link_erase he]
  | .expr l _, he => congrArg (Stmt.expr l) (Expr.link_erase he)

theorem Stmt.linkAll_eraseAll :
    ∀ {ts : List Stmt}, Stmt.AllCaptured ts → PageScript.Stmt.linkAll (Stmt.eraseAll ts) = ts
  | [], _ => rfl
  | t :: ts, ⟨ht, hts⟩ => by
    rw [Stmt.eraseAll, PageScript.Stmt.linkAll, Stmt.link_erase ht, Stmt.linkAll_eraseAll hts]

theorem Block.link_erase : ∀ {t : Block}, t.Captured → t.erase.link = t
  | ⟨l, _⟩, h => congrArg (Block.mk l) (Stmt.linkAll_eraseAll h)

theorem FunctionDecl.link_erase : ∀ {t : FunctionDecl}, t.Captured → t.erase.link = t
  | ⟨l, k, n, ps, _⟩, h => congrArg (FunctionDecl.mk l k n ps) (Block.link_erase h)

theorem FunctionDecl.linkAll_eraseAll :
    ∀ {ts : List FunctionDecl}, FunctionDecl.AllCaptured ts →
      PageScript.FunctionDecl.linkAll (FunctionDecl.eraseAll ts) = ts
  | [], _ => rfl
  | t :: ts, ⟨ht, hts⟩ => by
    rw [FunctionDecl.eraseAll, PageScript.FunctionDecl.linkAll, FunctionDecl.link_erase ht,
      FunctionDecl.linkAll_eraseAll hts]

theorem ClassDecl.link_erase : ∀ {t : ClassDecl}, t.Captured → t.erase.link = t
  | ⟨l, n, fs, _⟩, h => congrArg (ClassDecl.mk l n fs) (FunctionDecl.linkAll_eraseAll h)
end

end Linked

end PageScript
