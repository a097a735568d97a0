import PageScript.Proofs.Program.Accepted

/-!
# What does not see locations

The tokens of a tree, its place in the table of precedence, its spelling and its levels of nesting
depend on the bare tree only, and so does whether a program is printable (`Block.printable_bare`).
-/

set_option linter.unusedSectionVars false

namespace PageScript

/-! ## expressions -/

mutual
theorem Expr.tokens_bare : ∀ e : Expr, e.bare.tokens = e.tokens
  | .literal .. => rfl
  | .path .. => rfl
  | .binary _ op left right => by
    rw [Expr.bare, Expr.tokens, Expr.tokens, Expr.tokens_bare left, Expr.tokens_bare right]
  | .unary _ .neg operand => by
    rw [Expr.bare, Expr.tokens, Expr.tokens, Expr.tokens_bare operand]
  | .unary _ .not operand => by
    rw [Expr.bare, Expr.tokens, Expr.tokens, Expr.tokens_bare operand]
  | .call _ callee args => by
    rw [Expr.bare, Expr.tokens, Expr.tokens, Expr.tokens_bare callee, Expr.argTokens_bares args]
  | .new .. => rfl
  | .paren _ inner => by
    rw [Expr.bare, Expr.tokens, Expr.tokens, Expr.tokens_bare inner]

theorem Expr.argTokens_bares : ∀ es : List Expr,
    Expr.argTokens (Expr.bares es) = Expr.argTokens es
  | [] => rfl
  | e :: es => by
    rw [Expr.bares, Expr.argTokens, Expr.argTokens, Expr.tokens_bare e, Expr.moreTokens_bares es]

theorem Expr.moreTokens_bares : ∀ es : List Expr,
    Expr.moreTokens (Expr.bares es) = Expr.moreTokens es
  | [] => rfl
  | e :: es => by
    rw [Expr.bares, Expr.moreTokens, Expr.moreTokens, Expr.tokens_bare e, Expr.moreTokens_bares es]
end

theorem Expr.level_bare (e : Expr) : e.bare.level = e.level := by
  cases e with
  | _ => rfl

theorem Expr.isCallable_bare (e : Expr) : e.bare.isCallable = e.isCallable := by
  cases e with
  | _ => rfl

theorem Expr.isOpen_bare : ∀ e : Expr, e.bare.isOpen = e.isOpen
  | .binary _ _ _ right => Expr.isOpen_bare right
  | .unary _ .not _ => rfl
  | .unary _ .neg operand => Expr.isOpen_bare operand
  | .literal .. => rfl
  | .path .. => rfl
  | .call .. => rfl
  | .new .. => rfl
  | .paren .. => rfl

mutual
theorem Expr.canonical_bare : ∀ e : Expr, e.bare.canonical = e.canonical
  | .literal .. => rfl
  | .path .. => rfl
  | .binary _ op left right => by
    rw [Expr.bare, Expr.canonical, Expr.canonical, Expr.canonical_bare left,
      Expr.canonical_bare right, Expr.level_bare, Expr.isOpen_bare, Expr.level_bare]
  | .unary _ .neg operand => by
    rw [Expr.bare, Expr.canonical, Expr.canonical, Expr.canonical_bare operand, Expr.level_bare]
  | .unary _ .not operand => by
    rw [Expr.bare, Expr.canonical, Expr.canonical, Expr.canonical_bare operand]
  | .call _ callee args => by
    rw [Expr.bare, Expr.canonical, Expr.canonical, Expr.canonical_bare callee,
      Expr.isCallable_bare, Expr.allCanonical_bares args]
  | .new .. => rfl
  | .paren _ inner => by
    rw [Expr.bare, Expr.canonical, Expr.canonical, Expr.canonical_bare inner]

theorem Expr.allCanonical_bares : ∀ es : List Expr,
    Expr.allCanonical (Expr.bares es) = Expr.allCanonical es
  | [] => rfl
  | e :: es => by
    rw [Expr.bares, Expr.allCanonical, Expr.allCanonical, Expr.canonical_bare e,
      Expr.allCanonical_bares es]
end

mutual
theorem Expr.spelled_bare : ∀ e : Expr, e.bare.spelled = e.spelled
  | .literal .. => rfl
  | .path .. => rfl
  | .binary _ op left right => by
    rw [Expr.bare, Expr.spelled, Expr.spelled, Expr.spelled_bare left, Expr.spelled_bare right]
  | .unary _ _ operand => by
    rw [Expr.bare, Expr.spelled, Expr.spelled, Expr.spelled_bare operand]
  | .call _ callee args => by
    rw [Expr.bare, Expr.spelled, Expr.spelled, Expr.spelled_bare callee, Expr.allSpelled_bares args]
  | .new .. => rfl
  | .paren _ inner => by
    rw [Expr.bare, Expr.spelled, Expr.spelled, Expr.spelled_bare inner]

theorem Expr.allSpelled_bares : ∀ es : List Expr,
    Expr.allSpelled (Expr.bares es) = Expr.allSpelled es
  | [] => rfl
  | e :: es => by
    rw [Expr.bares, Expr.allSpelled, Expr.allSpelled, Expr.spelled_bare e, Expr.allSpelled_bares es]
end

mutual
theorem Expr.nesting_bare : ∀ e : Expr, e.bare.nesting = e.nesting
  | .literal .. => rfl
  | .path .. => rfl
  | .binary _ op left right => by
    rw [Expr.bare, Expr.nesting, Expr.nesting, Expr.nesting_bare left, Expr.nesting_bare right]
  | .unary _ _ operand => by
    rw [Expr.bare, Expr.nesting, Expr.nesting, Expr.nesting_bare operand]
  | .call _ callee args => by
    rw [Expr.bare, Expr.nesting, Expr.nesting, Expr.nesting_bare callee, Expr.argNesting_bares args]
  | .new .. => rfl
  | .paren _ inner => by
    rw [Expr.bare, Expr.nesting, Expr.nesting, Expr.nesting_bare inner]

theorem Expr.argNesting_bares : ∀ es : List Expr,
    Expr.argNesting (Expr.bares es) = Expr.argNesting es
  | [] => rfl
  | e :: es => by
    rw [Expr.bares, Expr.argNesting, Expr.argNesting, Expr.nesting_bare e, Expr.argNesting_bares es]
end

theorem Expr.firstNesting_bare : ∀ e : Expr, e.bare.firstNesting = e.firstNesting
  | .binary _ op left right => by
    rw [Expr.bare, Expr.firstNesting, Expr.firstNesting, Expr.firstNesting_bare left,
      Expr.nesting_bare]
  | .paren _ inner => Expr.nesting_bare inner
  | .literal .. => rfl
  | .path .. => rfl
  | .unary l op a => Expr.nesting_bare (.unary l op a)
  | .call l f as => Expr.nesting_bare (.call l f as)
  | .new .. => rfl

theorem statementNesting_bares (es : List Expr) :
    statementNesting (Expr.bares es) = statementNesting es := by
  cases es with
  | nil => rfl
  | cons e es =>
    rw [Expr.bares, statementNesting, statementNesting, Expr.firstNesting_bare,
      Expr.argNesting_bares]

theorem Expr.clashes_bare : ∀ e : Expr, e.bare.clashes = e.clashes
  | .binary _ _ (.paren ..) _ => rfl
  | .binary _ _ (.binary l op a b) _ => Expr.clashes_bare (.binary l op a b)
  | .binary _ _ (.call l f as) _ => Expr.clashes_bare (.call l f as)
  | .binary _ _ (.literal ..) _ => rfl
  | .binary _ _ (.path ..) _ => rfl
  | .binary _ _ (.unary ..) _ => rfl
  | .binary _ _ (.new ..) _ => rfl
  | .call _ (.paren ..) _ => rfl
  | .call _ (.binary l op a b) _ => Expr.clashes_bare (.binary l op a b)
  | .call _ (.call l f as) _ => Expr.clashes_bare (.call l f as)
  | .call _ (.literal ..) _ => rfl
  | .call _ (.path ..) _ => rfl
  | .call _ (.unary ..) _ => rfl
  | .call _ (.new ..) _ => rfl
  | .literal .. => rfl
  | .path .. => rfl
  | .unary .. => rfl
  | .new .. => rfl
  | .paren .. => rfl

theorem argumentsClash_bares (es : List Expr) :
    argumentsClash (Expr.bares es) = argumentsClash es := by
  cases es with
  | nil => rfl
  | cons e es => exact Expr.clashes_bare e

theorem Expr.fits_bare (k : Nat) (e : Expr) : e.bare.fits k = e.fits k := by
  rw [Expr.fits, Expr.fits, Expr.spelled_bare, Expr.canonical_bare, Expr.nesting_bare]

theorem Expr.isTarget_bare (e : Expr) : e.bare.isTarget = e.isTarget := by
  cases e with
  | call l f as => cases f <;> rfl
  | _ => rfl

theorem Expr.fitsTarget_bare (k : Nat) (e : Expr) : e.bare.fitsTarget k = e.fitsTarget k := by
  rw [Expr.fitsTarget, Expr.fitsTarget, Expr.isTarget_bare, Expr.spelled_bare,
    Expr.canonical_bare, Expr.nesting_bare]

theorem Expr.callsWrite_bare (e : Expr) : e.bare.callsWrite = e.callsWrite := by
  cases e with
  | call l f as => cases f <;> rfl
  | _ => rfl

theorem Expr.printsLine_bare (k : Nat) (e : Expr) : e.bare.printsLine k = e.printsLine k := by
  cases e with
  | call l f as =>
    cases f with
    | path l' names =>
      rw [Expr.bare, Expr.bare, Expr.printsLine, Expr.printsLine, Expr.allSpelled_bares,
        Expr.allCanonical_bares, argumentsClash_bares, statementNesting_bares]
    | _ => exact Expr.fits_bare k (.call l _ as)
  | _ => rfl

theorem Expr.printsCall_bare (k : Nat) (e : Expr) : e.bare.printsCall k = e.printsCall k := by
  rw [Expr.printsCall, Expr.printsCall, chunkText?_bare, Expr.callsWrite_bare,
    Expr.printsLine_bare]

/-! ## programs -/

mutual
theorem Stmt.wellFormed_bare (k : Nat) : ∀ s : Stmt, s.bare.wellFormed k = s.wellFormed k
  | .function decl => FunctionDecl.wellFormed_bare k decl
  | .class ⟨_, name, fields, methods⟩ => by
    rw [Stmt.bare, ClassDecl.bare, Stmt.wellFormed, Stmt.wellFormed, ClassDecl.wellFormed,
      ClassDecl.wellFormed, FunctionDecl.allWellFormed_bares k methods, List.all_map]
    rfl
  | .dim _ => rfl
  | .assign _ target value => by
    rw [Stmt.bare, Stmt.wellFormed, Stmt.wellFormed, Expr.fitsTarget_bare, Expr.fits_bare]
  | .cond _ c t e => by
    rw [Stmt.bare, Stmt.wellFormed, Stmt.wellFormed, Expr.fits_bare, Block.wellFormed_bare k t,
      Block.elseWellFormed_bare k e]
  | .expr .. => rfl
  | .optionExplicit _ => rfl
  | .exit .. => rfl

theorem Stmt.allWellFormed_bares (k : Nat) : ∀ ss : List Stmt,
    Stmt.allWellFormed k (Stmt.bares ss) = Stmt.allWellFormed k ss
  | [] => rfl
  | s :: ss => by
    rw [Stmt.bares, Stmt.allWellFormed, Stmt.allWellFormed, Stmt.wellFormed_bare k s,
      Stmt.allWellFormed_bares k ss]

theorem Block.wellFormed_bare (k : Nat) : ∀ b : Block, b.bare.wellFormed k = b.wellFormed k
  | ⟨_, ss⟩ => by
    cases k with
    | zero => rfl
    | succ k => exact Stmt.allWellFormed_bares k ss

theorem Block.elseWellFormed_bare (k : Nat) : ∀ b : Block,
    b.bare.elseWellFormed k = b.elseWellFormed k
  | ⟨_, []⟩ => rfl
  | ⟨l, s :: ss⟩ => by
    cases h : Block.isCondition ⟨l, s :: ss⟩ with
    | true =>
      match s, ss, h with
      | .cond l' c t e, [], _ =>
        exact Stmt.wellFormed_bare k (.cond l' c t e)
    | false =>
      have h' := Block.not_isCondition_bare h
      show Block.elseWellFormed k ⟨default, s.bare :: Stmt.bares ss⟩ = _
      rw [Block.elseWellFormed_of_not_isCondition k h, Block.elseWellFormed_of_not_isCondition k h']
      cases k with
      | zero => rfl
      | succ k =>
        rw [Block.wellFormed, Block.wellFormed, Stmt.allWellFormed, Stmt.allWellFormed,
          Stmt.wellFormed_bare k s, Stmt.allWellFormed_bares k ss]

theorem FunctionDecl.wellFormed_bare (k : Nat) : ∀ d : FunctionDecl,
    d.bare.wellFormed k = d.wellFormed k
  | ⟨_, kind, name, ps, body⟩ => by
    rw [FunctionDecl.bare, FunctionDecl.wellFormed, FunctionDecl.wellFormed,
      Block.wellFormed_bare k body, List.all_map]
    rfl

theorem FunctionDecl.allWellFormed_bares (k : Nat) : ∀ ds : List FunctionDecl,
    FunctionDecl.allWellFormed k (FunctionDecl.bares ds) = FunctionDecl.allWellFormed k ds
  | [] => rfl
  | d :: ds => by
    rw [FunctionDecl.bares, FunctionDecl.allWellFormed, FunctionDecl.allWellFormed,
      FunctionDecl.wellFormed_bare k d, FunctionDecl.allWellFormed_bares k ds]
end

section

variable {P : Nat → Expr → Bool} (hP : ∀ k e, P k e.bare = P k e)

include hP

mutual
/-- a property of expressions that sees no locations, for all expressions that stand as
statements -/
theorem Stmt.everyCall_bare (k : Nat) : ∀ s : Stmt, s.bare.everyCall P k = s.everyCall P k
  | .function ⟨_, _, _, _, body⟩ => Block.everyCall_bare k body
  | .class ⟨_, _, _, methods⟩ => FunctionDecl.allEveryCall_bares k methods
  | .dim _ => rfl
  | .assign .. => rfl
  | .cond _ c t e => by
    rw [Stmt.bare, Stmt.everyCall, Stmt.everyCall, Block.everyCall_bare k t,
      Block.elseEveryCall_bare k e]
  | .expr _ e => hP k e
  | .optionExplicit _ => rfl
  | .exit .. => rfl

theorem Stmt.allEveryCall_bares (k : Nat) : ∀ ss : List Stmt,
    Stmt.allEveryCall P k (Stmt.bares ss) = Stmt.allEveryCall P k ss
  | [] => rfl
  | s :: ss => by
    rw [Stmt.bares, Stmt.allEveryCall, Stmt.allEveryCall, Stmt.everyCall_bare k s,
      Stmt.allEveryCall_bares k ss]

theorem Block.everyCall_bare (k : Nat) : ∀ b : Block, b.bare.everyCall P k = b.everyCall P k
  | ⟨_, ss⟩ => Stmt.allEveryCall_bares (k - 1) ss

theorem Block.elseEveryCall_bare (k : Nat) : ∀ b : Block,
    b.bare.elseEveryCall P k = b.elseEveryCall P k
  | ⟨_, []⟩ => rfl
  | ⟨l, s :: ss⟩ => by
    cases h : Block.isCondition ⟨l, s :: ss⟩ with
    | true =>
      match s, ss, h with
      | .cond l' c t e, [], _ =>
        exact Stmt.everyCall_bare k (.cond l' c t e)
    | false =>
      have h' := Block.not_isCondition_bare h
      show Block.elseEveryCall P k ⟨default, s.bare :: Stmt.bares ss⟩ = _
      rw [Block.elseEveryCall_of_not_isCondition P k h, Block.elseEveryCall_of_not_isCondition P k h',
        Block.everyCall, Block.everyCall, Stmt.allEveryCall, Stmt.allEveryCall,
        Stmt.everyCall_bare (k - 1) s, Stmt.allEveryCall_bares (k - 1) ss]

theorem FunctionDecl.allEveryCall_bares (k : Nat) : ∀ ds : List FunctionDecl,
    FunctionDecl.allEveryCall P k (FunctionDecl.bares ds) = FunctionDecl.allEveryCall P k ds
  | [] => rfl
  | ⟨_, _, _, _, body⟩ :: ds => by
    rw [FunctionDecl.bares, FunctionDecl.allEveryCall, FunctionDecl.allEveryCall,
      FunctionDecl.allEveryCall_bares k ds]
    exact congrArg (· && _) (Block.everyCall_bare k body)
end

end

/-- **Whether a program is printable does not depend on its locations.** -/
theorem Block.printable_bare (b : Block) : b.bare.printable = b.printable := by
  rw [Block.printable, Block.printable, Block.wellFormed_bare,
    Block.everyCall_bare Expr.printsCall_bare]

end PageScript
