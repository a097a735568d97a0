import PageScript.Program

/-!
# What a block declares

The declarations of a block that take effect in its own scope: those of its statements and of the
blocks of its conditions, but not those in the bodies of functions and methods.

* `Block.functions`, `Block.classes`   what a block declares in its scope;
* `Block.names`                        the names of its variables and functions;
* `Block.isClassFree`                  nothing in the text of the block declares a class;
* `Block.declaresAtTop`                the bodies of functions and methods declare neither functions
                                       nor classes.
-/

namespace PageScript

mutual
/-- what `pick` takes from the statements that share the scope of a statement -/
def Stmt.declared {α : Type} (pick : Stmt → List α) : Stmt → List α
  | .cond _ _ thenBlock elseBlock => thenBlock.declared pick ++ elseBlock.declared pick
  | stmt => pick stmt

def Stmt.declaredAll {α : Type} (pick : Stmt → List α) : List Stmt → List α
  | [] => []
  | stmt :: stmts => stmt.declared pick ++ Stmt.declaredAll pick stmts

def Block.declared {α : Type} (pick : Stmt → List α) : Block → List α
  | ⟨_, statements⟩ => Stmt.declaredAll pick statements
end

def Stmt.ownFunction : Stmt → List FunctionDecl
  | .function decl => [decl]
  | _ => []

def Stmt.ownClass : Stmt → List ClassDecl
  | .class decl => [decl]
  | _ => []

/-- the functions that a block declares in its scope -/
def Block.functions (b : Block) : List FunctionDecl := b.declared Stmt.ownFunction

def Block.classes (b : Block) : List ClassDecl := b.declared Stmt.ownClass

def Stmt.ownName : Stmt → List String
  | .dim decl => [decl.name]
  | .function decl => [decl.name]
  | _ => []

/-- the names of the variables and functions that a block declares in its scope -/
def Block.names (b : Block) : List String := b.declared Stmt.ownName

/-- the names of the members of a class -/
def ClassDecl.memberNames (d : ClassDecl) : List String :=
  d.fields.map (·.name) ++ d.methods.map (·.name)

def FunctionDecl.paramNames (d : FunctionDecl) : List String := d.params.map (·.name)

/-! ## programs without classes -/

mutual
/-- no class is declared in a statement, at any depth -/
def Stmt.isClassFree : Stmt → Bool
  | .function ⟨_, _, _, _, body⟩ => body.isClassFree
  | .class _ => false
  | .cond _ _ thenBlock elseBlock => thenBlock.isClassFree && elseBlock.isClassFree
  | .dim _ => true
  | .assign .. => true
  | .expr .. => true
  | .optionExplicit _ => true
  | .exit .. => true

def Stmt.allClassFree : List Stmt → Bool
  | [] => true
  | stmt :: stmts => stmt.isClassFree && Stmt.allClassFree stmts

def Block.isClassFree : Block → Bool
  | ⟨_, statements⟩ => Stmt.allClassFree statements
end

mutual
theorem Stmt.declared_of_isClassFree : ∀ {stmt : Stmt}, stmt.isClassFree = true →
    stmt.declared Stmt.ownClass = [] ∧
      ∀ d ∈ stmt.declared Stmt.ownFunction, d.body.isClassFree = true
  | .function ⟨_, _, _, _, _⟩, h => ⟨rfl, fun _ hd => List.mem_singleton.mp hd ▸ h⟩
  | .class _, h => nomatch h
  | .cond _ _ t e, h => by
    simp only [Stmt.isClassFree, Bool.and_eq_true] at h
    obtain ⟨htClasses, htFunctions⟩ := Block.declared_of_isClassFree h.1
    obtain ⟨heClasses, heFunctions⟩ := Block.declared_of_isClassFree h.2
    simp only [Stmt.declared, htClasses, heClasses, List.mem_append, List.append_nil, true_and]
    exact fun d hd => hd.elim (htFunctions d) (heFunctions d)
  | .dim _, _ => ⟨rfl, fun _ hd => nomatch hd⟩
  | .assign .., _ => ⟨rfl, fun _ hd => nomatch hd⟩
  | .expr .., _ => ⟨rfl, fun _ hd => nomatch hd⟩
  | .optionExplicit _, _ => ⟨rfl, fun _ hd => nomatch hd⟩
  | .exit .., _ => ⟨rfl, fun _ hd => nomatch hd⟩

theorem Stmt.declaredAll_of_allClassFree : ∀ {stmts : List Stmt}, Stmt.allClassFree stmts = true →
    Stmt.declaredAll Stmt.ownClass stmts = [] ∧
      ∀ d ∈ Stmt.declaredAll Stmt.ownFunction stmts, d.body.isClassFree = true
  | [], _ => ⟨rfl, fun _ hd => nomatch hd⟩
  | stmt :: stmts, h => by
    simp only [Stmt.allClassFree, Bool.and_eq_true] at h
    obtain ⟨hClasses, hFunctions⟩ := Stmt.declared_of_isClassFree h.1
    obtain ⟨hsClasses, hsFunctions⟩ := Stmt.declaredAll_of_allClassFree h.2
    simp only [Stmt.declaredAll, hClasses, hsClasses, List.mem_append, List.append_nil, true_and]
    exact fun d hd => hd.elim (hFunctions d) (hsFunctions d)

/-- a block without classes declares none, and its functions have none in them -/
theorem Block.declared_of_isClassFree : ∀ {b : Block}, b.isClassFree = true →
    b.declared Stmt.ownClass = [] ∧ ∀ d ∈ b.declared Stmt.ownFunction, d.body.isClassFree = true
  | ⟨_, _⟩, h => Stmt.declaredAll_of_allClassFree h
end

/-! ## programs with all declarations at the top -/

/-- a block declares neither functions nor classes -/
def Block.declaresNone (b : Block) : Bool := b.functions.isEmpty && b.classes.isEmpty

/-- the bodies of functions and methods declare neither functions nor classes -/
def Block.declaresAtTop (b : Block) : Bool :=
  b.functions.all (·.body.declaresNone) && b.classes.all (·.methods.all (·.body.declaresNone))

end PageScript
