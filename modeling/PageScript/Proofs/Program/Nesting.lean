import PageScript.Proofs.Program.Invariant

/-!
# How deep a program is nested

The levels of a tree are its blocks, its full expressions and the operands of its signs.  A full
expression is a condition, an argument, the content of parentheses, the operand of `not`, the value
of an assignment, and an expression that stands as a statement; but a statement that calls a path
is made of its arguments, each of them a full expression.

* `Expr.callNesting`   the levels inside an expression that stands as a statement;
* `Expr.codeNesting`   the same, where the text of a chunk counts nothing;
* `Block.nesting`      the levels of a block, by the levels of its calls;
* `Block.nesting_le`   a block that is well formed within a nesting budget keeps to it;
* `Block.nesting_bare` the levels of a block do not depend on locations.
-/

set_option linter.unusedSectionVars false

namespace PageScript

/-- the levels of an expression that stands as a statement; the parentheses that open the first
argument of a call of a path count nothing beyond that argument -/
def Expr.callNesting : Expr → Nat
  | .call _ (.path ..) args => statementNesting args
  | e => e.nesting + 1

/-- the statement that a chunk becomes, with the call, the path and the text at one location -/
def Expr.isChunk : Expr → Bool
  | .call l (.path l' names) [.literal l'' (.string _)] =>
    names == writePath && l' == l && l'' == l
  | _ => false

/-- the levels of an expression that stands as a statement, where the text of a chunk is none -/
def Expr.codeNesting (e : Expr) : Nat := if e.isChunk then 0 else e.callNesting

section

variable (calls : Expr → Nat)

mutual
/-- the levels inside a statement, by the levels of the expressions that stand as statements -/
def Stmt.nesting : Stmt → Nat
  | .function decl => decl.nesting
  | .class decl => decl.nesting
  | .dim _ => 0
  | .assign _ target value => max target.nesting (value.nesting + 1)
  | .cond _ condition thenBlock elseBlock =>
    max (condition.nesting + 1) (max thenBlock.nesting elseBlock.elseNesting)
  | .expr _ e => calls e
  | .optionExplicit _ => 0
  | .exit .. => 0

def Stmt.allNesting : List Stmt → Nat
  | [] => 0
  | s :: ss => max s.nesting (Stmt.allNesting ss)

/-- a block is a level -/
def Block.nesting : Block → Nat
  | ⟨_, statements⟩ => Stmt.allNesting statements + 1

/-- the other block of a condition; one condition in it is `elseif`, at the level of the first -/
def Block.elseNesting : Block → Nat
  | ⟨_, []⟩ => 1
  | ⟨_, [.cond _ condition thenBlock elseBlock]⟩ =>
    max (condition.nesting + 1) (max thenBlock.nesting elseBlock.elseNesting)
  | ⟨_, s :: ss⟩ => max s.nesting (Stmt.allNesting ss) + 1

def FunctionDecl.nesting : FunctionDecl → Nat
  | ⟨_, _, _, _, body⟩ => body.nesting

def FunctionDecl.allNesting : List FunctionDecl → Nat
  | [] => 0
  | d :: ds => max d.nesting (FunctionDecl.allNesting ds)

def ClassDecl.nesting : ClassDecl → Nat
  | ⟨_, _, _, methods⟩ => FunctionDecl.allNesting methods
end

/-- the calls keep to the levels that are allowed where they stand -/
def callsWithin (k : Nat) (e : Expr) : Bool := decide (calls e ≤ k)

variable {calls}

theorem Block.elseNesting_of_not_isCondition {l : Location} {s : Stmt} {ss : List Stmt}
    (h : Block.isCondition ⟨l, s :: ss⟩ = false) :
    Block.elseNesting calls ⟨l, s :: ss⟩ = Block.nesting calls ⟨l, s :: ss⟩ := by
  rw [Block.elseNesting.eq_3 calls l s ss (Block.ne_condition h), Block.nesting, Stmt.allNesting]

theorem Expr.nesting_of_fits {k : Nat} {e : Expr} (h : e.fits k = true) : e.nesting + 1 ≤ k := by
  simp only [Expr.fits, Bool.and_eq_true, decide_eq_true_eq] at h
  exact h.2

theorem Expr.nesting_of_fitsTarget {k : Nat} {e : Expr} (h : e.fitsTarget k = true) :
    e.nesting ≤ k := by
  simp only [Expr.fitsTarget, Bool.and_eq_true, decide_eq_true_eq] at h
  exact h.2

mutual
theorem Stmt.nesting_le {k : Nat} : ∀ s : Stmt, s.wellFormed k = true →
    s.everyCall (callsWithin calls) k = true → s.nesting calls ≤ k
  | .function ⟨_, _, _, _, body⟩, hw, hc => by
    simp only [Stmt.wellFormed, FunctionDecl.wellFormed, Bool.and_eq_true] at hw
    exact Block.nesting_le body hw.2 hc
  | .class ⟨_, _, _, methods⟩, hw, hc => by
    simp only [Stmt.wellFormed, ClassDecl.wellFormed, Bool.and_eq_true] at hw
    exact FunctionDecl.allNesting_le methods hw.2 hc
  | .dim _, _, _ => Nat.zero_le k
  | .assign _ target value, hw, _ => by
    simp only [Stmt.wellFormed, Bool.and_eq_true] at hw
    exact Nat.max_le.mpr ⟨Expr.nesting_of_fitsTarget hw.1, Expr.nesting_of_fits hw.2⟩
  | .cond _ c t e, hw, hc => by
    simp only [Stmt.wellFormed, Stmt.everyCall, Bool.and_eq_true] at hw hc
    have ht := Block.nesting_le t hw.1.2 hc.1
    have he := Block.elseNesting_le hw.1.2 e hw.2 hc.2
    exact Nat.max_le.mpr ⟨Expr.nesting_of_fits hw.1.1, Nat.max_le.mpr ⟨ht, he⟩⟩
  | .expr .., _, hc => of_decide_eq_true hc
  | .optionExplicit _, _, _ => Nat.zero_le k
  | .exit .., _, _ => Nat.zero_le k

theorem Stmt.allNesting_le {k : Nat} : ∀ ss : List Stmt, Stmt.allWellFormed k ss = true →
    Stmt.allEveryCall (callsWithin calls) k ss = true → Stmt.allNesting calls ss ≤ k
  | [], _, _ => Nat.zero_le k
  | s :: ss, hw, hc => by
    simp only [Stmt.allWellFormed, Stmt.allEveryCall, Bool.and_eq_true] at hw hc
    exact Nat.max_le.mpr ⟨Stmt.nesting_le s hw.1 hc.1, Stmt.allNesting_le ss hw.2 hc.2⟩

/-- **A block that is well formed within a nesting budget keeps to it**, if its calls do. -/
theorem Block.nesting_le {k : Nat} : ∀ b : Block, b.wellFormed k = true →
    b.everyCall (callsWithin calls) k = true → b.nesting calls ≤ k
  | ⟨_, ss⟩, hw, hc => by
    obtain ⟨k, rfl⟩ := Block.exists_succ_of_wellFormed hw
    exact Nat.succ_le_succ (Stmt.allNesting_le ss hw hc)

/-- the block behind `then` has a level, so an empty block behind `else` has one too -/
theorem Block.elseNesting_le {k : Nat} {t : Block} (ht : t.wellFormed k = true) : ∀ b : Block,
    b.elseWellFormed k = true → b.elseEveryCall (callsWithin calls) k = true →
      b.elseNesting calls ≤ k
  | ⟨_, []⟩, _, _ => by
    obtain ⟨k, rfl⟩ := Block.exists_succ_of_wellFormed ht
    exact Nat.succ_le_succ (Nat.zero_le k)
  | ⟨l, s :: ss⟩, hw, hc => by
    cases hcond : Block.isCondition ⟨l, s :: ss⟩ with
    | true =>
      match s, ss, hcond with
      | .cond l' c t' e, [], _ =>
        simp only [Block.elseWellFormed, Block.elseEveryCall, Bool.and_eq_true] at hw hc
        have ht' := Block.nesting_le t' hw.1.2 hc.1
        have he := Block.elseNesting_le hw.1.2 e hw.2 hc.2
        exact Nat.max_le.mpr ⟨Expr.nesting_of_fits hw.1.1, Nat.max_le.mpr ⟨ht', he⟩⟩
    | false =>
      rw [Block.elseWellFormed_of_not_isCondition _ hcond] at hw
      rw [Block.elseEveryCall_of_not_isCondition _ _ hcond] at hc
      rw [Block.elseNesting_of_not_isCondition hcond]
      obtain ⟨k, rfl⟩ := Block.exists_succ_of_wellFormed hw
      simp only [Block.wellFormed, Block.everyCall, Stmt.allWellFormed, Stmt.allEveryCall,
        Bool.and_eq_true] at hw hc
      have hs := Stmt.nesting_le s hw.1 hc.1
      exact Nat.succ_le_succ (Nat.max_le.mpr ⟨hs, Stmt.allNesting_le ss hw.2 hc.2⟩)

theorem FunctionDecl.allNesting_le {k : Nat} : ∀ ds : List FunctionDecl,
    FunctionDecl.allWellFormed k ds = true →
      FunctionDecl.allEveryCall (callsWithin calls) k ds = true →
        FunctionDecl.allNesting calls ds ≤ k
  | [], _, _ => Nat.zero_le k
  | ⟨_, _, _, _, body⟩ :: ds, hw, hc => by
    simp only [FunctionDecl.allWellFormed, FunctionDecl.wellFormed, FunctionDecl.allEveryCall,
      Bool.and_eq_true] at hw hc
    have hbody := Block.nesting_le body hw.1.2 hc.1
    exact Nat.max_le.mpr ⟨hbody, FunctionDecl.allNesting_le ds hw.2 hc.2⟩
end

/-! ## locations -/

section

variable (hcalls : ∀ e, calls e.bare = calls e)

include hcalls

mutual
theorem Stmt.nesting_bare : ∀ s : Stmt, s.bare.nesting calls = s.nesting calls
  | .function ⟨_, _, _, _, body⟩ => Block.nesting_bare body
  | .class ⟨_, _, _, methods⟩ => FunctionDecl.allNesting_bares methods
  | .dim _ => rfl
  | .assign .. => by
    rw [Stmt.bare, Stmt.nesting, Stmt.nesting, Expr.nesting_bare, Expr.nesting_bare]
  | .cond _ c t e => by
    rw [Stmt.bare, Stmt.nesting, Stmt.nesting, Expr.nesting_bare, Block.nesting_bare t,
      Block.elseNesting_bare e]
  | .expr _ e => hcalls e
  | .optionExplicit _ => rfl
  | .exit .. => rfl

theorem Stmt.allNesting_bares : ∀ ss : List Stmt,
    Stmt.allNesting calls (Stmt.bares ss) = Stmt.allNesting calls ss
  | [] => rfl
  | s :: ss => by
    rw [Stmt.bares, Stmt.allNesting, Stmt.allNesting, Stmt.nesting_bare s,
      Stmt.allNesting_bares ss]

theorem Block.nesting_bare : ∀ b : Block, b.bare.nesting calls = b.nesting calls
  | ⟨_, ss⟩ => congrArg (· + 1) (Stmt.allNesting_bares ss)

theorem Block.elseNesting_bare : ∀ b : Block, b.bare.elseNesting calls = b.elseNesting calls
  | ⟨_, []⟩ => rfl
  | ⟨l, s :: ss⟩ => by
    cases h : Block.isCondition ⟨l, s :: ss⟩ with
    | true =>
      match s, ss, h with
      | .cond l' c t e, [], _ =>
        exact Stmt.nesting_bare (.cond l' c t e)
    | false =>
      have h' := Block.not_isCondition_bare h
      show Block.elseNesting calls ⟨default, s.bare :: Stmt.bares ss⟩ = _
      rw [Block.elseNesting_of_not_isCondition h, Block.elseNesting_of_not_isCondition h',
        Block.nesting, Block.nesting, Stmt.allNesting, Stmt.allNesting, Stmt.nesting_bare s,
        Stmt.allNesting_bares ss]

theorem FunctionDecl.allNesting_bares : ∀ ds : List FunctionDecl,
    FunctionDecl.allNesting calls (FunctionDecl.bares ds) = FunctionDecl.allNesting calls ds
  | [] => rfl
  | ⟨_, _, _, _, body⟩ :: ds => by
    rw [FunctionDecl.bares, FunctionDecl.allNesting, FunctionDecl.allNesting,
      FunctionDecl.allNesting_bares ds]
    exact congrArg (max · _) (Block.nesting_bare body)
end

end

end

theorem Expr.callNesting_bare (e : Expr) : e.bare.callNesting = e.callNesting := by
  cases e with
  | call l f args =>
    cases f with
    | path l' names => exact statementNesting_bares args
    | _ => exact congrArg (· + 1) (Expr.nesting_bare (.call l _ args))
  | _ => exact congrArg (· + 1) (Expr.nesting_bare _)

end PageScript
