import PageScript.Proofs.Program.Tokens

/-!
# The calls that reading gives

Not every call that reading gives has a text of its own.  `Expr.accepted` says which calls can come
out of reading a statement, and `Expr.reprints` which of these are printed so that they can be read
back.  Together the two make a call printable (`Expr.printsCall_of_accepted`).

What is accepted where `k` levels of nesting are allowed is accepted where more are allowed.
-/

namespace PageScript

/-! ## accepted calls -/

/-- the statement of a chunk -/
def Expr.writesChunk : Expr → Bool
  | .call _ (.path _ names) [.literal _ (.string text)] =>
    names == writePath && !opensCode text.toList
  | _ => false

/-- a call that a line of code can give where `k` levels of nesting are allowed; a callee that is
no operand can be called without arguments only -/
def Expr.acceptedLine (k : Nat) : Expr → Bool
  | .call _ (.path _ names) args =>
    isPath names && Expr.allSpelled args && Expr.allCanonical args
      && decide (statementNesting args ≤ k)
  | .call l callee args =>
    (callee.isCallable || args.isEmpty) && callee.canonical && Expr.allCanonical args
      && (Expr.call l callee args).spelled && decide ((Expr.call l callee args).nesting < k)
  | _ => false

/-- a call that reading a statement can give where `k` levels of nesting are allowed -/
def Expr.accepted (k : Nat) (e : Expr) : Bool := e.writesChunk || e.acceptedLine k

/-- the text of the call is read as the call where `k` levels of nesting are allowed.  A text that
is printed outside code calls the path of such texts in its very spelling.  A call of a path is
printed without parentheses, so its first argument does not clash with the path, and there is a
level for the arguments.  Any other call is printed as an expression, so its callee is an
operand. -/
def Expr.reprints (k : Nat) (e : Expr) : Bool :=
  match chunkText? e with
  | some _ => e.callsWrite
  | none =>
    match e with
    | .call _ (.path ..) [] => true
    | .call _ (.path ..) (arg :: _) => !arg.clashes && decide (0 < k)
    | .call _ callee _ => callee.isCallable
    | _ => false

theorem Expr.writesChunk_iff {e : Expr} : e.writesChunk = true ↔
    ∃ l l' l'' text, e = .call l (.path l' writePath) [.literal l'' (.string text)]
      ∧ opensCode text.toList = false := by
  constructor
  · intro h
    fun_cases Expr.writesChunk e with
    | case1 l l' names l'' text =>
      simp only [Expr.writesChunk, Bool.and_eq_true, beq_iff_eq, Bool.not_eq_true'] at h
      obtain ⟨rfl, ho⟩ := h
      exact ⟨l, l', l'', text, rfl, ho⟩
    | case2 e hne =>
      rw [Expr.writesChunk.eq_2 e hne] at h
      cases h
  · rintro ⟨l, l', l'', text, rfl, ho⟩
    simp [Expr.writesChunk, ho]

theorem Expr.spelled_of_acceptedLine {k : Nat} {e : Expr} (h : e.acceptedLine k = true) :
    e.spelled = true := by
  fun_cases Expr.acceptedLine k e with
  | case1 l l' names args =>
    simp only [Expr.acceptedLine, Bool.and_eq_true] at h
    rw [Expr.spelled, Expr.spelled, h.1.1.1, h.1.1.2]
    rfl
  | case2 l callee args hne =>
    simp only [Expr.acceptedLine.eq_2 k l callee args hne, Bool.and_eq_true] at h
    exact h.1.2
  | case3 e hne hne' =>
    rw [Expr.acceptedLine.eq_3 k e hne hne'] at h
    cases h

/-- the statement of a chunk is printed as a chunk, or it is spelled -/
theorem Expr.scans_of_accepted {k : Nat} {e : Expr} (h : e.accepted k = true) :
    e.scans = true := by
  rw [Expr.accepted, Bool.or_eq_true] at h
  rcases h with h | h
  · obtain ⟨l, l', l'', text, rfl, ho⟩ := Expr.writesChunk_iff.mp h
    cases hn : text.toList.contains '\n' with
    | true =>
      have hneeds : needsChunk text = true := by
        rw [needsChunk, ho, Bool.and_eq_true, List.any_eq_true]
        exact ⟨⟨'\n', List.contains_iff_mem.mp hn, rfl⟩, rfl⟩
      have htext : chunkText? (.call l (.path l' writePath) [.literal l'' (.string text)])
          = some text := by
        simp [chunkText?, writePath, hneeds]
      rw [Expr.scans, htext]
      rfl
    | false =>
      have hs : (Expr.call l (.path l' writePath) [.literal l'' (.string text)]).spelled = true := by
        simp only [Expr.spelled, Expr.allSpelled, Literal.spelled, hn]
        decide
      rw [Expr.scans, hs, Bool.or_true]
  · rw [Expr.scans, Expr.spelled_of_acceptedLine h, Bool.or_true]

/-- **A call that is accepted and reprints is printable.** -/
theorem Expr.printsCall_of_accepted {k : Nat} {e : Expr} (h : e.accepted k = true)
    (hr : e.reprints k = true) : e.printsCall k = true := by
  unfold Expr.reprints at hr
  unfold Expr.printsCall
  cases htext : chunkText? e with
  | some text =>
    rw [htext] at hr
    exact hr
  | none =>
    simp only [htext] at hr ⊢
    rw [Expr.accepted, Bool.or_eq_true] at h
    rcases h with h | h
    · obtain ⟨l, l', l'', text, rfl, ho⟩ := Expr.writesChunk_iff.mp h
      have hs : (Expr.call l (.path l' writePath) [.literal l'' (.string text)]).scans = true := by
        apply Expr.scans_of_accepted (k := k)
        rw [Expr.accepted, h]
        rfl
      rw [Expr.scans, htext] at hs
      simp only [Option.isSome_none, Bool.false_or, Expr.spelled, Bool.and_eq_true] at hs
      simp only [Bool.and_eq_true, decide_eq_true_eq] at hr
      have hk : statementNesting [.literal l'' (.string text)] ≤ k := by
        show max (0 + 1) 0 ≤ k
        omega
      simp only [Expr.printsLine, hs.1, hs.2, decide_eq_true hk]
      rfl
    · fun_cases Expr.acceptedLine k e with
      | case1 l l' names args =>
        simp only [Expr.acceptedLine, Bool.and_eq_true] at h
        have hclash : argumentsClash args = false := by
          cases args with
          | nil => rfl
          | cons a as =>
            simp only [Bool.and_eq_true, Bool.not_eq_true'] at hr
            exact hr.1
        simp only [Expr.printsLine, h.1.1.1, h.1.1.2, h.1.2, h.2, hclash]
        rfl
      | case2 l callee args hne =>
        simp only [Expr.acceptedLine.eq_2 k l callee args hne, Bool.and_eq_true] at h
        have hcall : callee.isCallable = true := by
          cases callee with
          | path l' names => exact absurd rfl (hne l' names)
          | _ => exact hr
        rw [Expr.printsLine.eq_2 k l callee args hne]
        simp only [Expr.fits, Expr.canonical, h.1.1.1.2, h.1.1.2, h.1.2, h.2, hcall]
        rfl
      | case3 e hne hne' =>
        rw [Expr.acceptedLine.eq_3 k e hne hne'] at h
        cases h

/-! ## more levels of nesting -/

theorem Expr.firstNesting_le : ∀ e : Expr, e.firstNesting ≤ e.nesting
  | .binary _ _ left right => by
    have := Expr.firstNesting_le left
    rw [Expr.firstNesting, Expr.nesting]
    omega
  | .paren _ inner => Nat.le_succ _
  | .literal .. => Nat.le_refl _
  | .path .. => Nat.le_refl _
  | .unary .. => Nat.le_refl _
  | .call .. => Nat.le_refl _
  | .new .. => Nat.le_refl _

theorem statementNesting_le (es : List Expr) : statementNesting es ≤ Expr.argNesting es := by
  cases es with
  | nil => exact Nat.le_refl _
  | cons e es =>
    have := Expr.firstNesting_le e
    rw [statementNesting, Expr.argNesting]
    omega

theorem Expr.fits_mono {k k' : Nat} (hk : k ≤ k') {e : Expr} (h : e.fits k = true) :
    e.fits k' = true := by
  simp only [Expr.fits, Bool.and_eq_true, decide_eq_true_eq] at h ⊢
  exact ⟨h.1, by omega⟩

theorem Expr.fitsTarget_mono {k k' : Nat} (hk : k ≤ k') {e : Expr} (h : e.fitsTarget k = true) :
    e.fitsTarget k' = true := by
  simp only [Expr.fitsTarget, Bool.and_eq_true, decide_eq_true_eq] at h ⊢
  exact ⟨h.1, by omega⟩

theorem Expr.accepted_mono {k k' : Nat} (hk : k ≤ k') {e : Expr} (h : e.accepted k = true) :
    e.accepted k' = true := by
  rw [Expr.accepted, Bool.or_eq_true] at h ⊢
  refine h.imp_right fun h => ?_
  fun_cases Expr.acceptedLine k e with
  | case1 l l' names args =>
    simp only [Expr.acceptedLine, Bool.and_eq_true, decide_eq_true_eq] at h ⊢
    exact ⟨h.1, by omega⟩
  | case2 l callee args hne =>
    simp only [Expr.acceptedLine.eq_2 _ l callee args hne, Bool.and_eq_true,
      decide_eq_true_eq] at h ⊢
    exact ⟨h.1, by omega⟩
  | case3 e hne hne' =>
    rw [Expr.acceptedLine.eq_3 k e hne hne'] at h
    cases h

mutual
theorem Stmt.wellFormed_mono {k k' : Nat} (hk : k ≤ k') : ∀ s : Stmt, s.wellFormed k = true →
    s.wellFormed k' = true
  | .function ⟨_, _, _, _, body⟩, h => by
    simp only [Stmt.wellFormed, FunctionDecl.wellFormed, Bool.and_eq_true] at h ⊢
    exact ⟨h.1, Block.wellFormed_mono hk body h.2⟩
  | .class ⟨_, _, _, methods⟩, h => by
    simp only [Stmt.wellFormed, ClassDecl.wellFormed, Bool.and_eq_true] at h ⊢
    exact ⟨h.1, FunctionDecl.allWellFormed_mono hk methods h.2⟩
  | .dim _, h => h
  | .assign _ target value, h => by
    simp only [Stmt.wellFormed, Bool.and_eq_true] at h ⊢
    exact ⟨Expr.fitsTarget_mono hk h.1, Expr.fits_mono hk h.2⟩
  | .cond _ c t e, h => by
    simp only [Stmt.wellFormed, Bool.and_eq_true] at h ⊢
    exact ⟨⟨Expr.fits_mono hk h.1.1, Block.wellFormed_mono hk t h.1.2⟩,
      Block.elseWellFormed_mono hk e h.2⟩
  | .expr .., _ => rfl
  | .optionExplicit _, _ => rfl
  | .exit .., _ => rfl

theorem Stmt.allWellFormed_mono {k k' : Nat} (hk : k ≤ k') : ∀ ss : List Stmt,
    Stmt.allWellFormed k ss = true → Stmt.allWellFormed k' ss = true
  | [], _ => rfl
  | s :: ss, h => by
    simp only [Stmt.allWellFormed, Bool.and_eq_true] at h ⊢
    exact ⟨Stmt.wellFormed_mono hk s h.1, Stmt.allWellFormed_mono hk ss h.2⟩

theorem Block.wellFormed_mono {k k' : Nat} (hk : k ≤ k') : ∀ b : Block, b.wellFormed k = true →
    b.wellFormed k' = true
  | ⟨_, ss⟩, h => by
    obtain ⟨k, rfl⟩ := Block.exists_succ_of_wellFormed h
    obtain ⟨k', rfl⟩ : ∃ j, k' = j + 1 := ⟨k' - 1, by omega⟩
    exact Stmt.allWellFormed_mono (Nat.le_of_succ_le_succ hk) ss h

theorem Block.elseWellFormed_mono {k k' : Nat} (hk : k ≤ k') : ∀ b : Block,
    b.elseWellFormed k = true → b.elseWellFormed k' = true
  | ⟨_, []⟩, _ => rfl
  | ⟨l, s :: ss⟩, h => by
    cases hcond : Block.isCondition ⟨l, s :: ss⟩ with
    | true =>
      match s, ss, hcond with
      | .cond l' c t e, [], _ =>
        simp only [Block.elseWellFormed, Bool.and_eq_true] at h ⊢
        exact ⟨⟨Expr.fits_mono hk h.1.1, Block.wellFormed_mono hk t h.1.2⟩,
          Block.elseWellFormed_mono hk e h.2⟩
    | false =>
      rw [Block.elseWellFormed_of_not_isCondition _ hcond] at h ⊢
      obtain ⟨k, rfl⟩ := Block.exists_succ_of_wellFormed h
      obtain ⟨k', rfl⟩ : ∃ j, k' = j + 1 := ⟨k' - 1, by omega⟩
      simp only [Block.wellFormed, Stmt.allWellFormed, Bool.and_eq_true] at h ⊢
      exact ⟨Stmt.wellFormed_mono (Nat.le_of_succ_le_succ hk) s h.1,
        Stmt.allWellFormed_mono (Nat.le_of_succ_le_succ hk) ss h.2⟩

theorem FunctionDecl.allWellFormed_mono {k k' : Nat} (hk : k ≤ k') : ∀ ds : List FunctionDecl,
    FunctionDecl.allWellFormed k ds = true → FunctionDecl.allWellFormed k' ds = true
  | [], _ => rfl
  | ⟨_, _, _, _, body⟩ :: ds, h => by
    simp only [FunctionDecl.allWellFormed, FunctionDecl.wellFormed, Bool.and_eq_true] at h ⊢
    exact ⟨⟨h.1.1, Block.wellFormed_mono hk body h.1.2⟩, FunctionDecl.allWellFormed_mono hk ds h.2⟩
end

/-- a block is well formed behind `else` if it is well formed elsewhere -/
theorem Block.elseWellFormed_of_wellFormed {k : Nat} {b : Block} (h : b.wellFormed k = true) :
    b.elseWellFormed k = true := by
  obtain ⟨l, ss⟩ := b
  cases ss with
  | nil => rfl
  | cons s ss =>
    cases hcond : Block.isCondition ⟨l, s :: ss⟩ with
    | true =>
      match s, ss, hcond with
      | .cond l' c t e, [], _ =>
        obtain ⟨k, rfl⟩ := Block.exists_succ_of_wellFormed h
        simp only [Block.wellFormed, Stmt.allWellFormed, Bool.and_true] at h
        exact Stmt.wellFormed_mono (Nat.le_succ k) (.cond l' c t e) h
    | false =>
      rw [Block.elseWellFormed_of_not_isCondition _ hcond]
      exact h

section

variable {P : Nat → Expr → Bool}
  (hP : ∀ k k' e, k ≤ k' → P k e = true → P k' e = true)

include hP

/-- what holds of a call wherever more levels of nesting are allowed holds so of all calls -/
theorem Stmt.everyCall_mono {k k' : Nat} (hk : k ≤ k') {s : Stmt}
    (h : s.everyCall P k = true) : s.everyCall P k' = true := by
  refine Stmt.everyCall_rel (r := (· ≤ ·)) (Q := P) ?_ ?_ hk s h h
  · intro k k' hk
    omega
  · intro k k' e hk he _
    exact hP k k' e hk he

theorem Block.everyCall_mono {k k' : Nat} (hk : k ≤ k') {b : Block}
    (h : b.everyCall P k = true) : b.everyCall P k' = true := by
  refine Block.everyCall_rel (r := (· ≤ ·)) (Q := P) ?_ ?_ hk b h h
  · intro k k' hk
    omega
  · intro k k' e hk he _
    exact hP k k' e hk he

theorem Block.elseEveryCall_of_everyCall {k : Nat} {b : Block} (h : b.everyCall P k = true) :
    b.elseEveryCall P k = true := by
  obtain ⟨l, ss⟩ := b
  cases ss with
  | nil => rfl
  | cons s ss =>
    cases hcond : Block.isCondition ⟨l, s :: ss⟩ with
    | true =>
      match s, ss, hcond with
      | .cond l' c t e, [], _ =>
        simp only [Block.everyCall, Stmt.allEveryCall, Bool.and_true] at h
        have hcond' : (Stmt.cond l' c t e).everyCall P k = true :=
          Stmt.everyCall_mono hP (Nat.sub_le k 1) h
        exact hcond'
    | false =>
      rw [Block.elseEveryCall_of_not_isCondition _ _ hcond]
      exact h

end

/-! ## sound programs -/

/-- the statement is well formed and the calls in it are accepted -/
def SoundStmt (k : Nat) (st : Stmt) : Prop :=
  st.wellFormed k = true ∧ st.everyCall Expr.accepted k = true

def SoundStmts (k : Nat) (ss : List Stmt) : Prop :=
  Stmt.allWellFormed k ss = true ∧ Stmt.allEveryCall Expr.accepted k ss = true

def SoundBlock (k : Nat) (b : Block) : Prop :=
  b.wellFormed k = true ∧ b.everyCall Expr.accepted k = true

def SoundFunction (k : Nat) (d : FunctionDecl) : Prop :=
  d.wellFormed k = true ∧ d.everyCall Expr.accepted k = true

def SoundFunctions (k : Nat) (ds : List FunctionDecl) : Prop :=
  FunctionDecl.allWellFormed k ds = true ∧ FunctionDecl.allEveryCall Expr.accepted k ds = true

theorem SoundStmts.cons {k : Nat} {st : Stmt} {ss : List Stmt} (h : SoundStmts k (st :: ss)) :
    SoundStmt k st ∧ SoundStmts k ss := by
  obtain ⟨hw, hc⟩ := h
  simp only [Stmt.allWellFormed, Stmt.allEveryCall, Bool.and_eq_true] at hw hc
  exact ⟨⟨hw.1, hc.1⟩, hw.2, hc.2⟩

theorem SoundFunctions.cons {k : Nat} {d : FunctionDecl} {ds : List FunctionDecl}
    (h : SoundFunctions k (d :: ds)) : SoundFunction k d ∧ SoundFunctions k ds := by
  obtain ⟨hw, hc⟩ := h
  simp only [FunctionDecl.allWellFormed, FunctionDecl.allEveryCall, Bool.and_eq_true] at hw hc
  exact ⟨⟨hw.1, hc.1⟩, hw.2, hc.2⟩

theorem SoundBlock.statements {k : Nat} {l : Location} {ss : List Stmt}
    (h : SoundBlock k ⟨l, ss⟩) : SoundStmts (k - 1) ss := by
  obtain ⟨hw, hc⟩ := h
  obtain ⟨k, rfl⟩ := Block.exists_succ_of_wellFormed hw
  exact ⟨hw, hc⟩

theorem SoundFunction.body {k : Nat} {l : Location} {kind : FunctionKind} {name : String}
    {ps : List Param} {body : Block} (h : SoundFunction k ⟨l, kind, name, ps, body⟩) :
    isName name = true ∧ ps.all (fun p => isName p.name) = true ∧ SoundBlock k body := by
  obtain ⟨hw, hc⟩ := h
  simp only [FunctionDecl.wellFormed, Bool.and_eq_true] at hw
  exact ⟨hw.1.1, hw.1.2, hw.2, hc⟩

theorem SoundStmt.class {k : Nat} {l : Location} {name : String} {fields : List Dim}
    {methods : List FunctionDecl} (h : SoundStmt k (.class ⟨l, name, fields, methods⟩)) :
    isName name = true ∧ fields.all (fun f => isName f.name) = true
      ∧ SoundFunctions k methods := by
  obtain ⟨hw, hc⟩ := h
  simp only [Stmt.wellFormed, ClassDecl.wellFormed, Bool.and_eq_true] at hw
  exact ⟨hw.1.1, hw.1.2, hw.2, hc⟩

/-- the other block of a condition is sound where one more level is allowed -/
theorem SoundStmt.cond {k : Nat} {l : Location} {c : Expr} {t e : Block}
    (h : SoundStmt k (.cond l c t e)) :
    c.fits k = true ∧ SoundBlock k t ∧ SoundBlock (k + 1) e := by
  obtain ⟨hw, hc⟩ := h
  simp only [Stmt.wellFormed, Stmt.everyCall, Bool.and_eq_true] at hw hc
  refine ⟨hw.1.1, ⟨hw.1.2, hc.1⟩, ?_⟩
  obtain ⟨l', ss⟩ := e
  cases ss with
  | nil => exact ⟨rfl, rfl⟩
  | cons s ss =>
    cases hcond : Block.isCondition ⟨l', s :: ss⟩ with
    | true =>
      match s, ss, hcond with
      | .cond l'' c' t' e', [], _ =>
        constructor
        · rw [Block.wellFormed, Stmt.allWellFormed, Stmt.allWellFormed, Bool.and_true]
          exact hw.2
        · rw [Block.everyCall, Stmt.allEveryCall, Stmt.allEveryCall, Bool.and_true]
          exact hc.2
    | false =>
      rw [Block.elseWellFormed_of_not_isCondition k hcond] at hw
      rw [Block.elseEveryCall_of_not_isCondition _ k hcond] at hc
      exact ⟨Block.wellFormed_mono (Nat.le_succ k) _ hw.2,
        Block.everyCall_mono (P := Expr.accepted) (fun _ _ _ hk => Expr.accepted_mono hk)
          (Nat.le_succ k) hc.2⟩

end PageScript
