import PageScript.Proofs.Program.Bare
import PageScript.Parser.Expression

/-!
# Canonical trees

Which trees have a text of their own.  A tree is written without any parentheses but those that
are nodes of it, so it has to respect the table of precedence by itself; its names have to be
words, its integers have no sign and its strings no line feed.

* `Expr.canonical`     the tree respects the table of precedence;
* `Expr.spelled`       names, integers and strings can be written as tokens;
* `Expr.nesting`       the levels of nesting inside an expression;
* `Expr.clashes`       the expression starts with parentheses that cannot follow a path;
* `Block.wellFormed`   all of this for the declarations, assignments and conditions of a block
                       within a nesting budget;
* `Block.everyCall`    a property of all the expressions that stand as statements of a block.
-/

set_option linter.unusedSectionVars false

namespace PageScript

/-! ## names -/

/-- a letter or underscore, then letters, digits and underscores -/
def isWord (s : String) : Bool :=
  match s.toList with
  | [] => false
  | c :: cs => Scan.isNameStart c && cs.all Scan.isNameChar

/-- a word that can name a variable, a function or a class -/
def isName (s : String) : Bool := isWord s && !isReserved s

/-- a name, and words behind it that may be reserved -/
def isPath : List String → Bool
  | [] => false
  | name :: members => isName name && members.all isWord

/-! ## precedence -/

/-- how tightly the outermost operator binds; what is no operation binds tighter than any -/
def Expr.level : Expr → Nat
  | .binary _ op _ _ => op.level
  | _ => precedence.length

/-- the expression ends in an operand of `not`, which takes every operator that follows -/
def Expr.isOpen : Expr → Bool
  | .binary _ _ _ right => right.isOpen
  | .unary _ .not _ => true
  | .unary _ .neg operand => operand.isOpen
  | _ => false

def Expr.isCallable : Expr → Bool
  | .literal .. => true
  | .path .. => true
  | .call .. => true
  | .paren .. => true
  | _ => false

mutual
/-- the tree respects the table of precedence: operands of an operator bind tighter, on the left
at least as tight, and a left operand leaves nothing open -/
def Expr.canonical : Expr → Bool
  | .literal .. => true
  | .path .. => true
  | .binary _ op left right =>
    left.canonical && right.canonical
      && (decide (op.level ≤ left.level) && !left.isOpen && decide (op.level < right.level))
  | .unary _ .neg operand => operand.canonical && decide (operand.level = precedence.length)
  | .unary _ .not operand => operand.canonical
  | .call _ callee args => callee.canonical && callee.isCallable && Expr.allCanonical args
  | .new .. => true
  | .paren _ inner => inner.canonical

def Expr.allCanonical : List Expr → Bool
  | [] => true
  | e :: es => e.canonical && Expr.allCanonical es
end

/-! ## spelling -/

def Literal.spelled : Literal → Bool
  | .integer n => decide (0 ≤ n)
  | .string s => !s.toList.contains '\n'
  | .boolean _ => true

mutual
/-- names are words, integers have no sign and strings no line feed -/
def Expr.spelled : Expr → Bool
  | .literal _ value => value.spelled
  | .path _ names => isPath names
  | .binary _ _ left right => left.spelled && right.spelled
  | .unary _ _ operand => operand.spelled
  | .call _ callee args => callee.spelled && Expr.allSpelled args
  | .new _ className => isName className
  | .paren _ inner => inner.spelled

def Expr.allSpelled : List Expr → Bool
  | [] => true
  | e :: es => e.spelled && Expr.allSpelled es
end

/-! ## nesting -/

mutual
/-- the levels of nesting inside an expression: the operand of a sign or of `not`, an argument and
the content of parentheses count one each -/
def Expr.nesting : Expr → Nat
  | .literal .. => 0
  | .path .. => 0
  | .binary _ _ left right => max left.nesting right.nesting
  | .unary _ _ operand => operand.nesting + 1
  | .call _ callee args => max callee.nesting (Expr.argNesting args)
  | .new .. => 0
  | .paren _ inner => inner.nesting + 1

def Expr.argNesting : List Expr → Nat
  | [] => 0
  | e :: es => max (e.nesting + 1) (Expr.argNesting es)
end

/-- the levels inside the first argument of a statement, where the parentheses that open the
argument count nothing -/
def Expr.firstNesting : Expr → Nat
  | .binary _ _ left right => max left.firstNesting right.nesting
  | .paren _ inner => inner.nesting
  | e => e.nesting

/-- the levels that the arguments of a statement take -/
def statementNesting : List Expr → Nat
  | [] => 0
  | e :: es => max (e.firstNesting + 1) (Expr.argNesting es)

/-! ## expressions as statements -/

/-- the content of the parentheses with which an expression starts -/
def Expr.opening? : Expr → Option Expr
  | .paren _ inner => some inner
  | .binary _ _ left _ => left.opening?
  | .call _ callee _ => callee.opening?
  | _ => none

/-- the expression starts with parentheses that are called or compared by `=`; behind a path they
would be read as its argument list -/
def Expr.clashes : Expr → Bool
  | .binary _ op (.paren ..) _ => op == .eq
  | .binary _ _ left _ => left.clashes
  | .call _ (.paren ..) _ => true
  | .call _ callee _ => callee.clashes
  | _ => false

def argumentsClash : List Expr → Bool
  | [] => false
  | e :: _ => e.clashes

/-- the path of the statements that write to the page -/
def writePath : List String := ["response", "write"]

/-- what an assignment can assign to -/
def Expr.isTarget : Expr → Bool
  | .path .. => true
  | .call _ (.path ..) _ => true
  | _ => false

/-! ## statements -/

/-- a full expression that can be read where `k` levels of nesting are allowed -/
def Expr.fits (k : Nat) (e : Expr) : Bool :=
  e.spelled && e.canonical && decide (e.nesting < k)

def Expr.fitsTarget (k : Nat) (e : Expr) : Bool :=
  e.isTarget && e.spelled && e.canonical && decide (e.nesting ≤ k)

/-- a call of the path that writes to the page, in this very spelling -/
def Expr.callsWrite : Expr → Bool
  | .call _ (.path _ names) _ => names == writePath
  | _ => false

/-- the expression can be printed as a line of code and read back where `k` levels of nesting are
allowed -/
def Expr.printsLine (k : Nat) : Expr → Bool
  | .call _ (.path _ names) args =>
    isPath names && Expr.allSpelled args && Expr.allCanonical args && !argumentsClash args
      && decide (statementNesting args ≤ k)
  | .call loc callee args => Expr.fits k (.call loc callee args)
  | _ => false

/-- the expression can be printed as a statement and read back where `k` levels of nesting are
allowed; a text that is printed outside code needs none -/
def Expr.printsCall (k : Nat) (e : Expr) : Bool :=
  match chunkText? e with
  | some _ => e.callsWrite
  | none => e.printsLine k

mutual
/-- declarations have names, and expressions fit where `k` levels of nesting are allowed;
expressions that stand as statements are left to `everyCall` -/
def Stmt.wellFormed (k : Nat) : Stmt → Bool
  | .function decl => decl.wellFormed k
  | .class decl => decl.wellFormed k
  | .dim decl => isName decl.name
  | .assign _ target value => target.fitsTarget k && value.fits k
  | .cond _ condition thenBlock elseBlock =>
    condition.fits k && thenBlock.wellFormed k && elseBlock.elseWellFormed k
  | .expr .. => true
  | .optionExplicit _ => true
  | .exit .. => true

def Stmt.allWellFormed (k : Nat) : List Stmt → Bool
  | [] => true
  | s :: ss => s.wellFormed k && Stmt.allWellFormed k ss

/-- a block takes one of the levels -/
def Block.wellFormed (k : Nat) : Block → Bool
  | ⟨_, statements⟩ =>
    match k with
    | 0 => false
    | k + 1 => Stmt.allWellFormed k statements

/-- the other block of a condition; a condition in it is at the level of the first -/
def Block.elseWellFormed (k : Nat) : Block → Bool
  | ⟨_, []⟩ => true
  | ⟨_, [.cond _ condition thenBlock elseBlock]⟩ =>
    condition.fits k && thenBlock.wellFormed k && elseBlock.elseWellFormed k
  | ⟨_, s :: ss⟩ =>
    match k with
    | 0 => false
    | k + 1 => s.wellFormed k && Stmt.allWellFormed k ss

def FunctionDecl.wellFormed (k : Nat) : FunctionDecl → Bool
  | ⟨_, _, name, params, body⟩ =>
    isName name && params.all (fun p => isName p.name) && body.wellFormed k

def FunctionDecl.allWellFormed (k : Nat) : List FunctionDecl → Bool
  | [] => true
  | d :: ds => d.wellFormed k && FunctionDecl.allWellFormed k ds

def ClassDecl.wellFormed (k : Nat) : ClassDecl → Bool
  | ⟨_, name, fields, methods⟩ =>
    isName name && fields.all (fun f => isName f.name) && FunctionDecl.allWellFormed k methods
end

theorem Stmt.allWellFormed_eq (k : Nat) (ss : List Stmt) :
    Stmt.allWellFormed k ss = ss.all (Stmt.wellFormed k) := by
  induction ss with
  | nil => rfl
  | cons s ss ih => rw [Stmt.allWellFormed, ih, List.all_cons]

theorem FunctionDecl.allWellFormed_eq (k : Nat) (ds : List FunctionDecl) :
    FunctionDecl.allWellFormed k ds = ds.all (FunctionDecl.wellFormed k) := by
  induction ds with
  | nil => rfl
  | cons d ds ih => rw [FunctionDecl.allWellFormed, ih, List.all_cons]

theorem Block.exists_succ_of_wellFormed {k : Nat} {b : Block} (h : b.wellFormed k = true) :
    ∃ j, k = j + 1 := by
  obtain ⟨l, ss⟩ := b
  cases k with
  | zero => cases h
  | succ k => exact ⟨k, rfl⟩

/-- a block that is not one condition is well formed behind `else` as it is elsewhere -/
theorem Block.elseWellFormed_of_not_isCondition (k : Nat) {l : Location} {s : Stmt}
    {ss : List Stmt} (h : Block.isCondition ⟨l, s :: ss⟩ = false) :
    Block.elseWellFormed k ⟨l, s :: ss⟩ = Block.wellFormed k ⟨l, s :: ss⟩ := by
  have hne := Block.ne_condition h
  cases k with
  | zero => rw [Block.elseWellFormed.eq_3 l s ss hne, Block.wellFormed]
  | succ k => rw [Block.elseWellFormed.eq_4 l s ss k hne, Block.wellFormed, Stmt.allWellFormed]

mutual
/-- all expressions that stand as statements have a property, which may depend on the levels of
nesting that are allowed where they stand -/
def Stmt.everyCall (P : Nat → Expr → Bool) (k : Nat) : Stmt → Bool
  | .function decl => decl.everyCall P k
  | .class decl => decl.everyCall P k
  | .cond _ _ thenBlock elseBlock => thenBlock.everyCall P k && elseBlock.elseEveryCall P k
  | .expr _ e => P k e
  | _ => true

def Stmt.allEveryCall (P : Nat → Expr → Bool) (k : Nat) : List Stmt → Bool
  | [] => true
  | s :: ss => s.everyCall P k && Stmt.allEveryCall P k ss

def Block.everyCall (P : Nat → Expr → Bool) (k : Nat) : Block → Bool
  | ⟨_, statements⟩ => Stmt.allEveryCall P (k - 1) statements

def Block.elseEveryCall (P : Nat → Expr → Bool) (k : Nat) : Block → Bool
  | ⟨_, []⟩ => true
  | ⟨_, [.cond _ _ thenBlock elseBlock]⟩ => thenBlock.everyCall P k && elseBlock.elseEveryCall P k
  | ⟨_, s :: ss⟩ => s.everyCall P (k - 1) && Stmt.allEveryCall P (k - 1) ss

def FunctionDecl.everyCall (P : Nat → Expr → Bool) (k : Nat) : FunctionDecl → Bool
  | ⟨_, _, _, _, body⟩ => body.everyCall P k

def FunctionDecl.allEveryCall (P : Nat → Expr → Bool) (k : Nat) : List FunctionDecl → Bool
  | [] => true
  | d :: ds => d.everyCall P k && FunctionDecl.allEveryCall P k ds

def ClassDecl.everyCall (P : Nat → Expr → Bool) (k : Nat) : ClassDecl → Bool
  | ⟨_, _, _, methods⟩ => FunctionDecl.allEveryCall P k methods
end

theorem Stmt.allEveryCall_eq (P : Nat → Expr → Bool) (k : Nat) (ss : List Stmt) :
    Stmt.allEveryCall P k ss = ss.all (Stmt.everyCall P k) := by
  induction ss with
  | nil => rfl
  | cons s ss ih => rw [Stmt.allEveryCall, ih, List.all_cons]

theorem FunctionDecl.allEveryCall_eq (P : Nat → Expr → Bool) (k : Nat) (ds : List FunctionDecl) :
    FunctionDecl.allEveryCall P k ds = ds.all (FunctionDecl.everyCall P k) := by
  induction ds with
  | nil => rfl
  | cons d ds ih => rw [FunctionDecl.allEveryCall, ih, List.all_cons]

theorem Block.elseEveryCall_of_not_isCondition (P : Nat → Expr → Bool) (k : Nat) {l : Location}
    {s : Stmt} {ss : List Stmt} (h : Block.isCondition ⟨l, s :: ss⟩ = false) :
    Block.elseEveryCall P k ⟨l, s :: ss⟩ = Block.everyCall P k ⟨l, s :: ss⟩ := by
  rw [Block.elseEveryCall.eq_3 P k l s ss (Block.ne_condition h), Block.everyCall,
    Stmt.allEveryCall]

section

variable {P Q R : Nat → Expr → Bool} {r : Nat → Nat → Prop}
  (hpred : ∀ {k k'}, r k k' → r (k - 1) (k' - 1))
  (himp : ∀ {k k' e}, r k k' → P k e = true → Q k e = true → R k' e = true)

include hpred himp

mutual
/-- what follows from two properties for one expression follows for all of a block; the levels of
nesting may differ by a relation that holds one level further in as well -/
theorem Stmt.everyCall_rel {k k' : Nat} (hk : r k k') : ∀ s : Stmt, s.everyCall P k = true →
    s.everyCall Q k = true → s.everyCall R k' = true
  | .function ⟨_, _, _, _, body⟩, hp, hq => Block.everyCall_rel hk body hp hq
  | .class ⟨_, _, _, methods⟩, hp, hq => FunctionDecl.allEveryCall_rel hk methods hp hq
  | .dim _, _, _ => rfl
  | .assign .., _, _ => rfl
  | .cond _ _ t e, hp, hq => by
    simp only [Stmt.everyCall, Bool.and_eq_true] at hp hq ⊢
    exact ⟨Block.everyCall_rel hk t hp.1 hq.1, Block.elseEveryCall_rel hk e hp.2 hq.2⟩
  | .expr .., hp, hq => himp hk hp hq
  | .optionExplicit _, _, _ => rfl
  | .exit .., _, _ => rfl

theorem Stmt.allEveryCall_rel {k k' : Nat} (hk : r k k') : ∀ ss : List Stmt,
    Stmt.allEveryCall P k ss = true → Stmt.allEveryCall Q k ss = true →
      Stmt.allEveryCall R k' ss = true
  | [], _, _ => rfl
  | s :: ss, hp, hq => by
    simp only [Stmt.allEveryCall, Bool.and_eq_true] at hp hq ⊢
    exact ⟨Stmt.everyCall_rel hk s hp.1 hq.1, Stmt.allEveryCall_rel hk ss hp.2 hq.2⟩

theorem Block.everyCall_rel {k k' : Nat} (hk : r k k') : ∀ b : Block, b.everyCall P k = true →
    b.everyCall Q k = true → b.everyCall R k' = true
  | ⟨_, ss⟩, hp, hq => Stmt.allEveryCall_rel (hpred hk) ss hp hq

theorem Block.elseEveryCall_rel {k k' : Nat} (hk : r k k') : ∀ b : Block,
    b.elseEveryCall P k = true → b.elseEveryCall Q k = true → b.elseEveryCall R k' = true
  | ⟨_, []⟩, _, _ => rfl
  | ⟨l, s :: ss⟩, hp, hq => by
    cases hcond : Block.isCondition ⟨l, s :: ss⟩ with
    | true =>
      match s, ss, hcond with
      | .cond l' c t e, [], _ =>
        simp only [Block.elseEveryCall, Bool.and_eq_true] at hp hq ⊢
        exact ⟨Block.everyCall_rel hk t hp.1 hq.1, Block.elseEveryCall_rel hk e hp.2 hq.2⟩
    | false =>
      simp only [Block.elseEveryCall_of_not_isCondition _ _ hcond, Block.everyCall,
        Stmt.allEveryCall, Bool.and_eq_true] at hp hq ⊢
      exact ⟨Stmt.everyCall_rel (hpred hk) s hp.1 hq.1,
        Stmt.allEveryCall_rel (hpred hk) ss hp.2 hq.2⟩

theorem FunctionDecl.allEveryCall_rel {k k' : Nat} (hk : r k k') : ∀ ds : List FunctionDecl,
    FunctionDecl.allEveryCall P k ds = true → FunctionDecl.allEveryCall Q k ds = true →
      FunctionDecl.allEveryCall R k' ds = true
  | [], _, _ => rfl
  | ⟨_, _, _, _, body⟩ :: ds, hp, hq => by
    simp only [FunctionDecl.allEveryCall, FunctionDecl.everyCall, Bool.and_eq_true] at hp hq ⊢
    exact ⟨Block.everyCall_rel hk body hp.1 hq.1, FunctionDecl.allEveryCall_rel hk ds hp.2 hq.2⟩
end

end

/-- what follows from two properties for one expression follows for all of a block -/
theorem Block.everyCall_imp {P Q R : Nat → Expr → Bool}
    (h : ∀ {k e}, P k e = true → Q k e = true → R k e = true) {k : Nat} {b : Block}
    (hp : b.everyCall P k = true) (hq : b.everyCall Q k = true) : b.everyCall R k = true := by
  refine Block.everyCall_rel (r := Eq) (fun hk => by rw [hk]) ?_ rfl b hp hq
  rintro k _ e rfl hp hq
  exact h hp hq

/-- a text that is printed outside code is not empty -/
theorem isEmpty_of_chunkText? {e : Expr} {text : String} (h : chunkText? e = some text) :
    text.isEmpty = false := by
  unfold chunkText? at h
  split at h
  · split at h
    · next hc =>
      obtain rfl := Option.some.inj h
      simp only [needsChunk, Bool.and_eq_true, List.any_eq_true] at hc
      obtain ⟨-, ⟨c, hmem, -⟩, -⟩ := hc
      rw [String.isEmpty_eq_false_iff]
      rintro rfl
      cases hmem
    · cases h
  · cases h

/-- a statement that is printed outside code and calls the path that writes to the page -/
theorem Expr.eq_write_of_chunkText? {e : Expr} {text : String} (h : chunkText? e = some text)
    (hw : e.callsWrite = true) :
    ∃ l l' l'', e = .call l (.path l' writePath) [.literal l'' (.string text)] := by
  unfold chunkText? at h
  split at h
  · next l l' object method l'' text' =>
    split at h
    · obtain rfl := Option.some.inj h
      have hpath : [object, method] = writePath := beq_iff_eq.mp hw
      exact ⟨l, l', l'', by rw [hpath]⟩
    · cases h
  · cases h

/-- the program can be printed and read back -/
def Block.printable (b : Block) : Bool :=
  b.wellFormed Parser.maxNesting && b.everyCall Expr.printsCall Parser.maxNesting

end PageScript
