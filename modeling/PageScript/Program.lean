import PageScript.Location
import PageScript.Operator

/-!
# Programs

The tree of a script: expressions, statements and blocks, every node with the location of the
token that introduced it.  The tree says what was written and nothing more, so parentheses are
nodes of their own: around an argument they ask for a copy.

* `Expr`, `Stmt`, `Block`, `FunctionDecl`, `ClassDecl`   the nodes;
* `Expr.same_iff`, `Block.same_iff`                      equality of trees is decidable, locations
                                                         included.
-/

namespace PageScript

/-! ## expressions -/

inductive Literal
  | integer (n : Int64)
  | string (s : String)
  | boolean (b : Bool)
deriving DecidableEq, Inhabited

inductive Expr
  | literal (loc : Location) (value : Literal)
  /-- a name, and the members selected from it one after the other -/
  | path (loc : Location) (names : List String)
  | binary (loc : Location) (op : BinaryOp) (left right : Expr)
  | unary (loc : Location) (op : UnaryOp) (operand : Expr)
  | call (loc : Location) (callee : Expr) (args : List Expr)
  /-- a new instance of a class -/
  | new (loc : Location) (className : String)
  | paren (loc : Location) (inner : Expr)

instance : Inhabited Expr := ⟨.path default []⟩

def Expr.location : Expr → Location
  | .literal loc _ => loc
  | .path loc _ => loc
  | .binary loc _ _ _ => loc
  | .unary loc _ _ => loc
  | .call loc _ _ => loc
  | .new loc _ => loc
  | .paren loc _ => loc

/-- a path as it is written -/
def dotted (names : List String) : String := ".".intercalate names

/-! ## statements -/

/-- what a function leaves behind: a `function` has a result, a `sub` has none -/
inductive FunctionKind
  | function
  | sub
deriving DecidableEq, Inhabited

def FunctionKind.keyword : FunctionKind → String
  | .function => "function"
  | .sub => "sub"

structure Param where
  loc : Location
  name : String
  /-- `byref` or `byval` where one of them is written -/
  byRef : Option Bool
deriving DecidableEq, Inhabited

structure Dim where
  loc : Location
  name : String
deriving DecidableEq, Inhabited

mutual
inductive Stmt
  | function (decl : FunctionDecl)
  | class (decl : ClassDecl)
  | dim (decl : Dim)
  | assign (loc : Location) (target value : Expr)
  /-- a condition; further conditions are the only statement of the other block -/
  | cond (loc : Location) (condition : Expr) (thenBlock elseBlock : Block)
  /-- an expression for its effect -/
  | expr (loc : Location) (expression : Expr)
  | optionExplicit (loc : Location)
  | exit (loc : Location) (kind : FunctionKind)

structure Block where
  loc : Location
  statements : List Stmt

structure FunctionDecl where
  loc : Location
  kind : FunctionKind
  name : String
  params : List Param
  body : Block

structure ClassDecl where
  loc : Location
  name : String
  fields : List Dim
  methods : List FunctionDecl
end

instance : Inhabited Block := ⟨⟨default, []⟩⟩
instance : Inhabited Stmt := ⟨.optionExplicit default⟩
instance : Inhabited FunctionDecl := ⟨⟨default, .sub, "", [], default⟩⟩
instance : Inhabited ClassDecl := ⟨⟨default, "", [], []⟩⟩

def Stmt.location : Stmt → Location
  | .function decl => decl.loc
  | .class decl => decl.loc
  | .dim decl => decl.loc
  | .assign loc _ _ => loc
  | .cond loc _ _ _ => loc
  | .expr loc _ => loc
  | .optionExplicit loc => loc
  | .exit loc _ => loc

/-! ## equality of expressions -/

mutual
def Expr.same : Expr → Expr → Bool
  | .literal l v, .literal l' v' => l == l' && v == v'
  | .path l ns, .path l' ns' => l == l' && ns == ns'
  | .binary l op a b, .binary l' op' a' b' => l == l' && op == op' && a.same a' && b.same b'
  | .unary l op a, .unary l' op' a' => l == l' && op == op' && a.same a'
  | .call l f as, .call l' f' as' => l == l' && f.same f' && Expr.sameAll as as'
  | .new l c, .new l' c' => l == l' && c == c'
  | .paren l a, .paren l' a' => l == l' && a.same a'
  | _, _ => false

def Expr.sameAll : List Expr → List Expr → Bool
  | [], [] => true
  | a :: as, b :: bs => a.same b && Expr.sameAll as bs
  | _, _ => false
end

mutual
theorem Expr.same_iff : ∀ a b : Expr, a.same b = true ↔ a = b
  | .literal .., b => by cases b <;> simp [Expr.same]
  | .path .., b => by cases b <;> simp [Expr.same]
  | .binary _ _ a₁ a₂, b => by cases b <;> simp [Expr.same, same_iff a₁, same_iff a₂, and_assoc]
  | .unary _ _ a, b => by cases b <;> simp [Expr.same, same_iff a, and_assoc]
  | .call _ f as, b => by cases b <;> simp [Expr.same, same_iff f, sameAll_iff as, and_assoc]
  | .new .., b => by cases b <;> simp [Expr.same]
  | .paren _ a, b => by cases b <;> simp [Expr.same, same_iff a]

theorem Expr.sameAll_iff : ∀ as bs : List Expr, Expr.sameAll as bs = true ↔ as = bs
  | [], bs => by cases bs <;> simp [Expr.sameAll]
  | a :: as, bs => by cases bs <;> simp [Expr.sameAll, same_iff a, sameAll_iff as]
end

instance : DecidableEq Expr := fun a b => decidable_of_iff _ (Expr.same_iff a b)

/-! ## equality of statements -/

mutual
def Stmt.same : Stmt → Stmt → Bool
  | .function d, .function d' => d.same d'
  | .class d, .class d' => d.same d'
  | .dim d, .dim d' => d == d'
  | .assign l t v, .assign l' t' v' => l == l' && t == t' && v == v'
  | .cond l c t e, .cond l' c' t' e' => l == l' && c == c' && t.same t' && e.same e'
  | .expr l e, .expr l' e' => l == l' && e == e'
  | .optionExplicit l, .optionExplicit l' => l == l'
  | .exit l k, .exit l' k' => l == l' && k == k'
  | _, _ => false

def Block.same : Block → Block → Bool
  | ⟨l, ss⟩, ⟨l', ss'⟩ => l == l' && Stmt.sameAll ss ss'

def FunctionDecl.same : FunctionDecl → FunctionDecl → Bool
  | ⟨l, k, n, ps, b⟩, ⟨l', k', n', ps', b'⟩ =>
    l == l' && k == k' && n == n' && ps == ps' && b.same b'

def ClassDecl.same : ClassDecl → ClassDecl → Bool
  | ⟨l, n, fs, ms⟩, ⟨l', n', fs', ms'⟩ =>
    l == l' && n == n' && fs == fs' && FunctionDecl.sameAll ms ms'

def Stmt.sameAll : List Stmt → List Stmt → Bool
  | [], [] => true
  | a :: as, b :: bs => a.same b && Stmt.sameAll as bs
  | _, _ => false

def FunctionDecl.sameAll : List FunctionDecl → List FunctionDecl → Bool
  | [], [] => true
  | a :: as, b :: bs => a.same b && FunctionDecl.sameAll as bs
  | _, _ => false
end

mutual
theorem Stmt.same_iff : ∀ a b : Stmt, a.same b = true ↔ a = b
  | .function d, b => by cases b <;> simp [Stmt.same, FunctionDecl.same_iff d]
  | .class d, b => by cases b <;> simp [Stmt.same, ClassDecl.same_iff d]
  | .dim .., b => by cases b <;> simp [Stmt.same]
  | .assign .., b => by cases b <;> simp [Stmt.same, and_assoc]
  | .cond _ _ t e, b => by
    cases b <;> simp [Stmt.same, Block.same_iff t, Block.same_iff e, and_assoc]
  | .expr .., b => by cases b <;> simp [Stmt.same]
  | .optionExplicit _, b => by cases b <;> simp [Stmt.same]
  | .exit .., b => by cases b <;> simp [Stmt.same]

theorem Block.same_iff : ∀ a b : Block, a.same b = true ↔ a = b
  | ⟨_, ss⟩, ⟨_, _⟩ => by simp [Block.same, Stmt.sameAll_iff ss]

theorem FunctionDecl.same_iff : ∀ a b : FunctionDecl, a.same b = true ↔ a = b
  | ⟨_, _, _, _, body⟩, ⟨_, _, _, _, _⟩ => by
    simp [FunctionDecl.same, Block.same_iff body, and_assoc]

theorem ClassDecl.same_iff : ∀ a b : ClassDecl, a.same b = true ↔ a = b
  | ⟨_, _, _, ms⟩, ⟨_, _, _, _⟩ => by simp [ClassDecl.same, FunctionDecl.sameAll_iff ms, and_assoc]

theorem Stmt.sameAll_iff : ∀ as bs : List Stmt, Stmt.sameAll as bs = true ↔ as = bs
  | [], bs => by cases bs <;> simp [Stmt.sameAll]
  | a :: as, bs => by cases bs <;> simp [Stmt.sameAll, Stmt.same_iff a, Stmt.sameAll_iff as]

theorem FunctionDecl.sameAll_iff :
    ∀ as bs : List FunctionDecl, FunctionDecl.sameAll as bs = true ↔ as = bs
  | [], bs => by cases bs <;> simp [FunctionDecl.sameAll]
  | a :: as, bs => by
    cases bs <;> simp [FunctionDecl.sameAll, FunctionDecl.same_iff a, FunctionDecl.sameAll_iff as]
end

instance : DecidableEq Stmt := fun a b => decidable_of_iff _ (Stmt.same_iff a b)
instance : DecidableEq Block := fun a b => decidable_of_iff _ (Block.same_iff a b)
instance : DecidableEq FunctionDecl := fun a b => decidable_of_iff _ (FunctionDecl.same_iff a b)
instance : DecidableEq ClassDecl := fun a b => decidable_of_iff _ (ClassDecl.same_iff a b)

end PageScript
