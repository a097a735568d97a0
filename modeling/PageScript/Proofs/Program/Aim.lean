import PageScript.Proofs.Program.Accepted
import PageScript.Proofs.Program.Declared

/-!
# Well-aimed code

Where a tree is built by hand, a path may have no names in it and an assignment may go to anything.
No text spells such a tree: in what reading gives, paths have names, and assignments go to paths and
to calls of paths.

* `Block.wellAimed`           paths have names and targets can be assigned to, at every depth;
* `SoundBlock.wellAimed`      so it is in every program that has been read;
* `FunctionDecl.From`         a function is declared in one of some programs, at any depth;
* `FunctionDecl.From.wellAimed`   the bodies of such functions are well aimed if the programs are.
-/

namespace PageScript

/-! ## expressions -/

mutual
/-- paths have names -/
def Expr.wellAimed : Expr → Bool
  | .literal .. => true
  | .path _ names => !names.isEmpty
  | .binary _ _ left right => left.wellAimed && right.wellAimed
  | .unary _ _ operand => operand.wellAimed
  | .call _ callee args => callee.wellAimed && Expr.allWellAimed args
  | .new .. => true
  | .paren _ inner => inner.wellAimed

def Expr.allWellAimed : List Expr → Bool
  | [] => true
  | e :: es => e.wellAimed && Expr.allWellAimed es
end

mutual
theorem Expr.wellAimed_of_spelled : ∀ {e : Expr}, e.spelled = true → e.wellAimed = true
  | .literal .., _ => rfl
  | .path _ [], h => nomatch h
  | .path _ (_ :: _), _ => rfl
  | .binary _ _ a b, h => by
    simp only [Expr.spelled, Expr.wellAimed, Bool.and_eq_true] at h ⊢
    exact ⟨wellAimed_of_spelled h.1, wellAimed_of_spelled h.2⟩
  | .unary _ _ a, h => wellAimed_of_spelled (e := a) h
  | .call _ f args, h => by
    simp only [Expr.spelled, Expr.wellAimed, Bool.and_eq_true] at h ⊢
    exact ⟨wellAimed_of_spelled h.1, allWellAimed_of_allSpelled h.2⟩
  | .new .., _ => rfl
  | .paren _ a, h => wellAimed_of_spelled (e := a) h

theorem Expr.allWellAimed_of_allSpelled : ∀ {es : List Expr}, Expr.allSpelled es = true →
    Expr.allWellAimed es = true
  | [], _ => rfl
  | e :: es, h => by
    simp only [Expr.allSpelled, Expr.allWellAimed, Bool.and_eq_true] at h ⊢
    exact ⟨wellAimed_of_spelled h.1, allWellAimed_of_allSpelled h.2⟩
end

theorem Expr.wellAimed_of_fits {k : Nat} {e : Expr} (h : e.fits k = true) : e.wellAimed = true := by
  simp only [Expr.fits, Bool.and_eq_true] at h
  exact wellAimed_of_spelled h.1.1

/-- a text outside code may hold line feeds, but it is written to a path that has names -/
theorem Expr.wellAimed_of_accepted {k : Nat} {e : Expr} (h : e.accepted k = true) :
    e.wellAimed = true := by
  rw [Expr.accepted, Bool.or_eq_true] at h
  rcases h with h | h
  · obtain ⟨l, l', l'', text, rfl, -⟩ := Expr.writesChunk_iff.mp h
    rfl
  · exact wellAimed_of_spelled (spelled_of_acceptedLine h)

/-! ## programs -/

mutual
/-- paths have names, and assignments go to paths and to calls of paths -/
def Stmt.wellAimed : Stmt → Bool
  | .function decl => decl.wellAimed
  | .class decl => decl.wellAimed
  | .dim _ => true
  | .assign _ target value => target.isTarget && target.wellAimed && value.wellAimed
  | .cond _ condition thenBlock elseBlock =>
    condition.wellAimed && thenBlock.wellAimed && elseBlock.wellAimed
  | .expr _ e => e.wellAimed
  | .optionExplicit _ => true
  | .exit .. => true

def Stmt.allWellAimed : List Stmt → Bool
  | [] => true
  | stmt :: stmts => stmt.wellAimed && Stmt.allWellAimed stmts

def Block.wellAimed : Block → Bool
  | ⟨_, statements⟩ => Stmt.allWellAimed statements

def FunctionDecl.wellAimed : FunctionDecl → Bool
  | ⟨_, _, _, _, body⟩ => body.wellAimed

def FunctionDecl.allWellAimed : List FunctionDecl → Bool
  | [] => true
  | decl :: decls => decl.wellAimed && FunctionDecl.allWellAimed decls

def ClassDecl.wellAimed : ClassDecl → Bool
  | ⟨_, _, _, methods⟩ => FunctionDecl.allWellAimed methods
end

theorem FunctionDecl.wellAimed_body {d : FunctionDecl} (h : d.wellAimed = true) :
    d.body.wellAimed = true := by
  obtain ⟨_, _, _, _, body⟩ := d
  exact h

theorem FunctionDecl.wellAimed_of_mem {ds : List FunctionDecl}
    (h : FunctionDecl.allWellAimed ds = true) {d : FunctionDecl} (hd : d ∈ ds) :
    d.wellAimed = true := by
  induction ds with
  | nil => cases hd
  | cons d' ds ih =>
    simp only [FunctionDecl.allWellAimed, Bool.and_eq_true] at h
    rcases List.mem_cons.mp hd with rfl | hd
    · exact h.1
    · exact ih h.2 hd

theorem ClassDecl.wellAimed_method {k : ClassDecl} (h : k.wellAimed = true) {d : FunctionDecl}
    (hd : d ∈ k.methods) : d.wellAimed = true := by
  obtain ⟨_, _, _, methods⟩ := k
  exact FunctionDecl.wellAimed_of_mem h hd

/-! ## programs that have been read -/

mutual
theorem SoundStmt.wellAimed {k : Nat} : ∀ {st : Stmt}, SoundStmt k st → st.wellAimed = true
  | .function ⟨l, kind, _, _, _⟩, h =>
    (@SoundFunction.body k l kind _ _ _ h).2.2.wellAimed
  | .class ⟨_, _, _, _⟩, h => (SoundStmt.class h).2.2.wellAimed
  | .dim _, _ => rfl
  | .assign _ target value, h => by
    have hw := h.1
    simp only [Stmt.wellFormed, Expr.fitsTarget, Bool.and_eq_true] at hw
    simp only [Stmt.wellAimed, Bool.and_eq_true]
    exact ⟨⟨hw.1.1.1.1, Expr.wellAimed_of_spelled hw.1.1.1.2⟩, Expr.wellAimed_of_fits hw.2⟩
  | .cond _ c t e, h => by
    obtain ⟨hc, ht, he⟩ := SoundStmt.cond h
    simp only [Stmt.wellAimed, Bool.and_eq_true]
    exact ⟨⟨Expr.wellAimed_of_fits hc, ht.wellAimed⟩, he.wellAimed⟩
  | .expr _ e, h => Expr.wellAimed_of_accepted (k := k) (e := e) h.2
  | .optionExplicit _, _ => rfl
  | .exit .., _ => rfl

theorem SoundStmts.wellAimed {k : Nat} : ∀ {ss : List Stmt}, SoundStmts k ss →
    Stmt.allWellAimed ss = true
  | [], _ => rfl
  | st :: ss, h => by
    simp only [Stmt.allWellAimed, Bool.and_eq_true]
    exact ⟨h.cons.1.wellAimed, h.cons.2.wellAimed⟩

/-- **A program that has been read is well aimed.** -/
theorem SoundBlock.wellAimed {k : Nat} : ∀ {b : Block}, SoundBlock k b → b.wellAimed = true
  | ⟨_, _⟩, h => (SoundBlock.statements h).wellAimed

theorem SoundFunctions.wellAimed {k : Nat} : ∀ {ds : List FunctionDecl}, SoundFunctions k ds →
    FunctionDecl.allWellAimed ds = true
  | [], _ => rfl
  | ⟨_, _, _, _, _⟩ :: ds, h => by
    simp only [FunctionDecl.allWellAimed, Bool.and_eq_true]
    exact ⟨(SoundFunction.body h.cons.1).2.2.wellAimed, h.cons.2.wellAimed⟩
end

/-! ## what programs declare -/

mutual
theorem Stmt.wellAimed_declared : ∀ {stmt : Stmt}, stmt.wellAimed = true →
    (∀ d ∈ stmt.declared Stmt.ownFunction, d.wellAimed = true) ∧
      ∀ k ∈ stmt.declared Stmt.ownClass, k.wellAimed = true
  | .function _, h => ⟨fun _ hd => List.mem_singleton.mp hd ▸ h, fun _ hk => nomatch hk⟩
  | .class _, h => ⟨fun _ hd => (nomatch hd), fun _ hk => List.mem_singleton.mp hk ▸ h⟩
  | .cond _ _ t e, h => by
    simp only [Stmt.wellAimed, Bool.and_eq_true] at h
    obtain ⟨htFunctions, htClasses⟩ := Block.wellAimed_declared h.1.2
    obtain ⟨heFunctions, heClasses⟩ := Block.wellAimed_declared h.2
    simp only [Stmt.declared, List.mem_append]
    exact ⟨fun d hd => hd.elim (htFunctions d) (heFunctions d),
      fun k hk => hk.elim (htClasses k) (heClasses k)⟩
  | .dim _, _ => ⟨fun _ hd => (nomatch hd), fun _ hk => nomatch hk⟩
  | .assign .., _ => ⟨fun _ hd => (nomatch hd), fun _ hk => nomatch hk⟩
  | .expr .., _ => ⟨fun _ hd => (nomatch hd), fun _ hk => nomatch hk⟩
  | .optionExplicit _, _ => ⟨fun _ hd => (nomatch hd), fun _ hk => nomatch hk⟩
  | .exit .., _ => ⟨fun _ hd => (nomatch hd), fun _ hk => nomatch hk⟩

theorem Stmt.allWellAimed_declared : ∀ {stmts : List Stmt}, Stmt.allWellAimed stmts = true →
    (∀ d ∈ Stmt.declaredAll Stmt.ownFunction stmts, d.wellAimed = true) ∧
      ∀ k ∈ Stmt.declaredAll Stmt.ownClass stmts, k.wellAimed = true
  | [], _ => ⟨fun _ hd => (nomatch hd), fun _ hk => nomatch hk⟩
  | stmt :: stmts, h => by
    simp only [Stmt.allWellAimed, Bool.and_eq_true] at h
    obtain ⟨hFunctions, hClasses⟩ := Stmt.wellAimed_declared h.1
    obtain ⟨hsFunctions, hsClasses⟩ := Stmt.allWellAimed_declared h.2
    simp only [Stmt.declaredAll, List.mem_append]
    exact ⟨fun d hd => hd.elim (hFunctions d) (hsFunctions d),
      fun k hk => hk.elim (hClasses k) (hsClasses k)⟩

/-- what a well-aimed block declares is well aimed -/
theorem Block.wellAimed_declared : ∀ {b : Block}, b.wellAimed = true →
    (∀ d ∈ b.declared Stmt.ownFunction, d.wellAimed = true) ∧
      ∀ k ∈ b.declared Stmt.ownClass, k.wellAimed = true
  | ⟨_, _⟩, h => Stmt.allWellAimed_declared h
end

mutual
/-- a function is declared in a program as `P` says: by the program itself, in the body of such a
function, or as a method of such a class -/
inductive FunctionDecl.From (P : Block → Prop) : FunctionDecl → Prop
  | program {b : Block} {d : FunctionDecl} : P b → d ∈ b.functions → FunctionDecl.From P d
  | body {d d' : FunctionDecl} : FunctionDecl.From P d → d' ∈ d.body.functions →
    FunctionDecl.From P d'
  | method {k : ClassDecl} {d : FunctionDecl} : ClassDecl.From P k → d ∈ k.methods →
    FunctionDecl.From P d

/-- a class is declared in a program as `P` says: by the program itself, or in the body of such a
function -/
inductive ClassDecl.From (P : Block → Prop) : ClassDecl → Prop
  | program {b : Block} {k : ClassDecl} : P b → k ∈ b.classes → ClassDecl.From P k
  | body {d : FunctionDecl} {k : ClassDecl} : FunctionDecl.From P d → k ∈ d.body.classes →
    ClassDecl.From P k
end

section

variable {P : Block → Prop} (hP : ∀ b, P b → b.wellAimed = true)
include hP

mutual
theorem FunctionDecl.From.wellAimed : ∀ {d : FunctionDecl}, d.From P → d.wellAimed = true
  | d, .program hb hd => (Block.wellAimed_declared (hP _ hb)).1 d hd
  | d, .body hd' hd =>
    (Block.wellAimed_declared (FunctionDecl.wellAimed_body hd'.wellAimed)).1 d hd
  | _, .method hk hd => ClassDecl.wellAimed_method hk.wellAimed hd

theorem ClassDecl.From.wellAimed : ∀ {k : ClassDecl}, k.From P → k.wellAimed = true
  | k, .program hb hk => (Block.wellAimed_declared (hP _ hb)).2 k hk
  | k, .body hd hk =>
    (Block.wellAimed_declared (FunctionDecl.wellAimed_body hd.wellAimed)).2 k hk
end

end

end PageScript
