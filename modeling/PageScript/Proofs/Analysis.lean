import PageScript.Diagnostic.Analysis
import PageScript.Proofs.Store.Hoisting
import PageScript.Proofs.Store.Instances

/-!
# What static analysis finds

The findings of an analysis in closed form: what each scope of a program contributes, one after the
other, with no table and no traversal left in it.  The scopes are the ones of hoisting, so the
declarations that are found to be repeated are the ones that hoisting makes no binding for.

* `Block.namings`, `Block.classNamings`, `Block.exits`, `Block.bodies`   what a block has in its
                                         scope, and the bodies of functions and methods in it;
* `redeclarations`, `exitFindings`       the findings about names and about `exit`;
* `Block.findings`                       the findings of one scope;
* `Block.inspect_perm`                   an analysis finds what its scopes contribute;
* `Store.hoist_count`                    a binding for each name that is not found to be repeated;
* `Block.analysis_agrees`                both together;
* `Block.late_explicits`                 which `option explicit` statements are reported.
-/

namespace PageScript

/-! ## what a block has in its scope -/

/-- a name and where it is declared -/
structure Naming where
  name : String
  loc : Location
deriving DecidableEq

def Dim.naming (d : Dim) : Naming := ⟨d.name, d.loc⟩

def FunctionDecl.naming (d : FunctionDecl) : Naming := ⟨d.name, d.loc⟩

def ClassDecl.naming (d : ClassDecl) : Naming := ⟨d.name, d.loc⟩

def Stmt.ownNaming : Stmt → List Naming
  | .dim decl => [decl.naming]
  | .function decl => [decl.naming]
  | _ => []

def Stmt.ownExit : Stmt → List (Location × FunctionKind)
  | .exit loc kind => [(loc, kind)]
  | _ => []

/-- the variables and functions that a block declares in its scope -/
def Block.namings (b : Block) : List Naming := b.declared Stmt.ownNaming

def Block.classNamings (b : Block) : List Naming := b.classes.map ClassDecl.naming

def Block.exits (b : Block) : List (Location × FunctionKind) := b.declared Stmt.ownExit

/-- the members of a class, the fields before the methods -/
def ClassDecl.memberNamings (d : ClassDecl) : List Naming :=
  d.fields.map Dim.naming ++ d.methods.map FunctionDecl.naming

mutual
/-- the bodies of the functions and methods in a statement, at any depth -/
def Stmt.bodies : Stmt → List (FunctionKind × Block)
  | .function ⟨_, kind, _, _, body⟩ => (kind, body) :: body.bodies
  | .class ⟨_, _, _, methods⟩ => FunctionDecl.allBodies methods
  | .cond _ _ thenBlock elseBlock => thenBlock.bodies ++ elseBlock.bodies
  | .dim _ => []
  | .assign .. => []
  | .expr .. => []
  | .optionExplicit _ => []
  | .exit .. => []

def Stmt.allBodies : List Stmt → List (FunctionKind × Block)
  | [] => []
  | stmt :: stmts => stmt.bodies ++ Stmt.allBodies stmts

def Block.bodies : Block → List (FunctionKind × Block)
  | ⟨_, statements⟩ => Stmt.allBodies statements

def FunctionDecl.allBodies : List FunctionDecl → List (FunctionKind × Block)
  | [] => []
  | ⟨_, kind, _, _, body⟩ :: methods =>
    (kind, body) :: body.bodies ++ FunctionDecl.allBodies methods
end

/-! ## the findings of a scope -/

/-- one finding for each name that was there before, with the place where it was first -/
def redeclarations (ns : List Naming) : List Diagnostic :=
  ns.zipIdx.filterMap fun (n, i) =>
    ((ns.take i).find? fun e => Text.sameWord e.name n.name).map fun first =>
      ⟨n.loc, .redeclared n.name first.loc⟩

/-- one finding for each `exit` of another kind than the function around it; outside of functions,
one for each -/
def exitFindings (around : Option FunctionKind) (exits : List (Location × FunctionKind)) :
    List Diagnostic :=
  match around with
  | some kind => (exits.filter (·.2 ≠ kind)).map fun e => ⟨e.1, .wrongExit e.2 kind⟩
  | none => exits.map fun e => ⟨e.1, .outerExit e.2⟩

def Block.findings (around : Option FunctionKind) (b : Block) : List Diagnostic :=
  redeclarations b.namings ++ redeclarations b.classNamings
    ++ b.classes.flatMap (redeclarations ·.memberNamings) ++ exitFindings around b.exits

/-- the findings of a scope and of the bodies in it -/
def Block.allFindings (around : Option FunctionKind) (b : Block) : List Diagnostic :=
  b.findings around ++ b.bodies.flatMap fun (kind, body) => body.findings (some kind)

/-! ### repeated names, one after the other -/

/-- the findings about names behind others -/
def redeclaredAfter (seen : List Naming) : List Naming → List Diagnostic
  | [] => []
  | n :: ns =>
    ((seen.find? fun e => Text.sameWord e.name n.name).map fun first =>
        (⟨n.loc, .redeclared n.name first.loc⟩ : Diagnostic)).toList
      ++ redeclaredAfter (seen ++ [n]) ns

theorem redeclaredAfter_append (seen ns ms : List Naming) :
    redeclaredAfter seen (ns ++ ms)
      = redeclaredAfter seen ns ++ redeclaredAfter (seen ++ ns) ms := by
  induction ns generalizing seen with
  | nil => rw [List.nil_append, List.append_nil, redeclaredAfter, List.nil_append]
  | cons n ns ih =>
    rw [List.cons_append, redeclaredAfter, ih, redeclaredAfter, List.append_assoc,
      List.append_assoc, List.singleton_append]

theorem redeclaredAfter_eq (seen ns : List Naming) :
    redeclaredAfter seen ns = ns.zipIdx.filterMap fun (n, i) =>
      ((seen ++ ns.take i).find? fun e => Text.sameWord e.name n.name).map fun first =>
        ⟨n.loc, .redeclared n.name first.loc⟩ := by
  induction ns generalizing seen with
  | nil => rfl
  | cons n ns ih =>
    rw [redeclaredAfter, ih, List.zipIdx_cons, List.filterMap_cons, List.zipIdx_succ,
      List.filterMap_map]
    simp only [List.take_zero, List.append_nil, Function.comp_def, List.take_succ_cons,
      List.append_assoc, List.singleton_append]
    cases seen.find? _ <;> rfl

theorem redeclarations_eq (ns : List Naming) : redeclarations ns = redeclaredAfter [] ns :=
  (redeclaredAfter_eq [] ns).symm

theorem redeclarations_append_singleton (ns : List Naming) (n : Naming) :
    redeclarations (ns ++ [n]) = redeclarations ns
      ++ ((ns.find? fun e => Text.sameWord e.name n.name).map fun first =>
        (⟨n.loc, .redeclared n.name first.loc⟩ : Diagnostic)).toList := by
  rw [redeclarations_eq, redeclaredAfter_append, redeclarations_eq, List.nil_append,
    redeclaredAfter, redeclaredAfter, List.append_nil]

@[simp] theorem redeclaredAfter_nil (seen : List Naming) : redeclaredAfter seen [] = [] := rfl

@[simp] theorem exitFindings_nil (around : Option FunctionKind) : exitFindings around [] = [] := by
  cases around <;> rfl

theorem exitFindings_append (around : Option FunctionKind)
    (es fs : List (Location × FunctionKind)) :
    exitFindings around (es ++ fs) = exitFindings around es ++ exitFindings around fs := by
  cases around with
  | none => exact List.map_append
  | some kind => simp only [exitFindings, List.filter_append, List.map_append]

/-! ### how grave the findings are -/

theorem level_of_mem_redeclarations {ns : List Naming} {d : Diagnostic}
    (hd : d ∈ redeclarations ns) : d.level = .warning := by
  obtain ⟨⟨n, i⟩, -, hsome⟩ := List.mem_filterMap.mp hd
  obtain ⟨first, -, rfl⟩ := Option.map_eq_some_iff.mp hsome
  rfl

theorem level_of_mem_exitFindings {around : Option FunctionKind}
    {exits : List (Location × FunctionKind)} {d : Diagnostic} (hd : d ∈ exitFindings around exits) :
    d.level = if around.isSome then .error else .info := by
  cases around with
  | none =>
    obtain ⟨e, -, rfl⟩ := List.mem_map.mp hd
    rfl
  | some kind =>
    obtain ⟨e, -, rfl⟩ := List.mem_map.mp hd
    rfl

/-! ## tables -/

/-- a table has the first of each of the names that were entered -/
def Declared.Knows (t : Declared) (seen : List Naming) : Prop :=
  ∀ name, t.find? name = (seen.find? fun e => Text.sameWord e.name name).map (·.loc)

namespace Declared

variable {t : Declared} {seen : List Naming}

theorem knows_empty : Knows .empty [] := fun _ => rfl

/-- entering a name finds out whether it was there -/
theorem Knows.enter (h : t.Knows seen) (n : Naming) :
    (t.enter n.name n.loc).1 = redeclaredAfter seen [n]
      ∧ (t.enter n.name n.loc).2.Knows (seen ++ [n]) := by
  have hname := h n.name
  unfold Declared.enter
  rw [redeclaredAfter, redeclaredAfter, List.append_nil]
  cases hseen : seen.find? fun e => Text.sameWord e.name n.name with
  | some first =>
    rw [hseen, Option.map_some] at hname
    rw [hname]
    refine ⟨rfl, fun name => ?_⟩
    -- a name that was there is found where it was
    rw [List.find?_append, h name]
    cases hother : seen.find? fun e => Text.sameWord e.name name with
    | some _ => rfl
    | none =>
      have hne : Text.sameWord n.name name = false := by
        refine Bool.eq_false_iff.mpr fun hsame => ?_
        have hfirst : Text.sameWord first.name n.name = true := by
          simpa using List.find?_some hseen
        have hmiss := List.find?_eq_none.mp hother first (List.mem_of_find?_eq_some hseen)
        rw [Text.sameWord_iff] at hfirst hsame hmiss
        exact hmiss (hfirst.trans hsame)
      simp [hne]
  | none =>
    rw [hseen, Option.map_none] at hname
    rw [hname]
    refine ⟨rfl, fun name => ?_⟩
    rw [NameTable.find?_insert, List.find?_append, h name]
    by_cases hsame : Text.fold name = Text.fold n.name
    · have hfree : seen.find? (fun e => Text.sameWord e.name name) = none := by
        rw [← hseen]
        simp only [Text.sameWord, hsame]
      have hhere : Text.sameWord n.name name = true := (Text.sameWord_iff _ _).mpr hsame.symm
      rw [if_pos hsame, hfree]
      simp [hhere]
    · have hother : Text.sameWord n.name name = false := by
        simpa [Text.sameWord] using Ne.symm hsame
      rw [if_neg hsame]
      cases seen.find? fun e => Text.sameWord e.name name <;> simp [hother]

theorem Knows.enterFields (h : t.Knows seen) (fields : List Dim) :
    (t.enterFields fields).1 = redeclaredAfter seen (fields.map Dim.naming)
      ∧ (t.enterFields fields).2.Knows (seen ++ fields.map Dim.naming) := by
  induction fields generalizing t seen with
  | nil => exact ⟨rfl, by rwa [List.map_nil, List.append_nil]⟩
  | cons field fields ih =>
    obtain ⟨hfirst, hknows⟩ := h.enter field.naming
    obtain ⟨hrest, hknows'⟩ := ih hknows
    rw [List.map_cons, ← List.singleton_append (l := fields.map _), redeclaredAfter_append,
      ← List.append_assoc]
    exact ⟨congrArg₂ _ hfirst hrest, hknows'⟩

end Declared

/-! ## inspection -/

/-- what an inspection has found behind other declarations of the scope, and what the tables know
then -/
structure Inspected (around : Option FunctionKind) (seen seenClasses namings : List Naming)
    (classes : List ClassDecl) (exits : List (Location × FunctionKind))
    (bodies : List (FunctionKind × Block)) (r : List Diagnostic × ScopeTables) : Prop where
  found : r.1.Perm (redeclaredAfter seen namings
    ++ redeclaredAfter seenClasses (classes.map ClassDecl.naming)
    ++ classes.flatMap (redeclarations ·.memberNamings) ++ exitFindings around exits
    ++ bodies.flatMap fun (kind, body) => body.findings (some kind))
  names : r.2.names.Knows (seen ++ namings)
  classNames : r.2.classes.Knows (seenClasses ++ classes.map ClassDecl.naming)

namespace Inspected

variable {around : Option FunctionKind} {seen seenClasses ns ms : List Naming}
  {cs ds : List ClassDecl} {es fs : List (Location × FunctionKind)}
  {bs bs' : List (FunctionKind × Block)} {found found' : List Diagnostic} {t t' : ScopeTables}

theorem nil (hnames : t.names.Knows seen) (hclasses : t.classes.Knows seenClasses) :
    Inspected around seen seenClasses [] [] [] [] ([], t) where
  found := by cases around <;> exact .refl _
  names := by rwa [List.append_nil]
  classNames := by rwa [List.map_nil, List.append_nil]

/-- **One inspection after another.** -/
theorem append (h : Inspected around seen seenClasses ns cs es bs (found, t))
    (h' : Inspected around (seen ++ ns) (seenClasses ++ cs.map ClassDecl.naming) ms ds fs bs'
      (found', t')) :
    Inspected around seen seenClasses (ns ++ ms) (cs ++ ds) (es ++ fs) (bs ++ bs')
      (found ++ found', t') where
  found := by
    refine List.perm_iff_count.mpr fun d => ?_
    have hd := List.perm_iff_count.mp h.found d
    have hd' := List.perm_iff_count.mp h'.found d
    simp only [List.map_append, redeclaredAfter_append, exitFindings_append, List.flatMap_append,
      List.count_append] at hd hd' ⊢
    omega
  names := by
    rw [← List.append_assoc]
    exact h'.names
  classNames := by
    rw [List.map_append, ← List.append_assoc]
    exact h'.classNames

theorem name {n : Naming} (hnames : t.names.Knows seen) (hclasses : t.classes.Knows seenClasses) :
    Inspected around seen seenClasses [n] [] [] [] (t.addVariable n.name n.loc) := by
  obtain ⟨hfound, hknows⟩ := hnames.enter n
  refine ⟨?_, hknows, by rwa [List.map_nil, List.append_nil]⟩
  show (t.names.enter n.name n.loc).1.Perm _
  rw [hfound]
  cases around <;> simp [exitFindings, redeclaredAfter]

theorem body {b : Block} {kind : FunctionKind} (hnames : t.names.Knows seen)
    (hclasses : t.classes.Knows seenClasses)
    (h : Inspected (some kind) [] [] b.namings b.classes b.exits b.bodies
      (b.inspect (some kind) .empty)) :
    Inspected around seen seenClasses [] [] [] ((kind, b) :: b.bodies)
      ((b.inspect (some kind) .empty).1, t) where
  found := by
    have hfound := h.found
    rw [← redeclarations_eq, ← redeclarations_eq] at hfound
    cases around <;> exact hfound
  names := by rwa [List.append_nil]
  classNames := by rwa [List.map_nil, List.append_nil]

theorem exit (hnames : t.names.Knows seen) (hclasses : t.classes.Knows seenClasses)
    (loc : Location) (kind : FunctionKind) :
    Inspected around seen seenClasses [] [] [(loc, kind)] [] (inspectExit around loc kind, t) where
  found := by
    have hexit : exitFindings around [(loc, kind)] = inspectExit around loc kind := by
      cases around with
      | none => rfl
      | some k => by_cases hk : k = kind <;> simp [exitFindings, inspectExit, hk, Ne.symm]
    simp [redeclaredAfter, hexit]
  names := by rwa [List.append_nil]
  classNames := by rwa [List.map_nil, List.append_nil]

/-- a class, with what is found about its methods -/
theorem classDecl {loc : Location} {name : String} {fields : List Dim}
    {methods : List FunctionDecl} (hnames : t.names.Knows seen)
    (hclasses : t.classes.Knows seenClasses)
    (hmethods : ∀ {members : Declared} {seen : List Naming}, members.Knows seen →
      (FunctionDecl.inspectMethods members methods).Perm
        (redeclaredAfter seen (methods.map FunctionDecl.naming)
          ++ (FunctionDecl.allBodies methods).flatMap fun (kind, body) =>
            body.findings (some kind))) :
    Inspected around seen seenClasses [] [⟨loc, name, fields, methods⟩] []
      (FunctionDecl.allBodies methods)
      ((Stmt.class ⟨loc, name, fields, methods⟩).inspect around t) := by
  obtain ⟨hname, hknows⟩ := hclasses.enter ⟨name, loc⟩
  obtain ⟨hfields, hmembers⟩ := Declared.knows_empty.enterFields fields
  refine ⟨List.perm_iff_count.mpr fun f => ?_, ?_, hknows⟩
  · have hcount := List.perm_iff_count.mp (hmethods hmembers) f
    have hmembersFound := redeclaredAfter_append [] (fields.map Dim.naming)
      (methods.map FunctionDecl.naming)
    show ((t.classes.enter name loc).1 ++ (Declared.enterFields .empty fields).1
      ++ FunctionDecl.inspectMethods _ methods).count f = _
    rw [← redeclarations_eq] at hmembersFound
    simp only [hname, hfields, List.count_append, List.flatMap_singleton, ClassDecl.memberNamings,
      hmembersFound, List.map_singleton, ClassDecl.naming, exitFindings_nil, redeclaredAfter_nil]
      at hcount ⊢
    simp only [List.count_nil]
    omega
  · rw [List.append_nil]
    exact hnames

end Inspected

mutual
theorem Stmt.inspected : ∀ (stmt : Stmt) {around : Option FunctionKind}
    {seen seenClasses : List Naming} {t : ScopeTables}, t.names.Knows seen →
    t.classes.Knows seenClasses →
    Inspected around seen seenClasses (stmt.declared Stmt.ownNaming) (stmt.declared Stmt.ownClass)
      (stmt.declared Stmt.ownExit) stmt.bodies (stmt.inspect around t)
  | .dim _, _, _, _, _, hnames, hclasses => .name hnames hclasses
  | .function ⟨loc, kind, name, _, body⟩, _, _, _, _, hnames, hclasses =>
    have hname := Inspected.name (n := ⟨name, loc⟩) hnames hclasses
    hname.append (.body hname.names hname.classNames (body.inspected_body kind))
  | .class ⟨_, _, _, methods⟩, _, _, _, _, hnames, hclasses =>
    .classDecl hnames hclasses fun hmembers => FunctionDecl.inspectedMethods methods hmembers
  | .cond _ _ thenBlock elseBlock, _, _, _, _, hnames, hclasses =>
    have hthen := thenBlock.inspected hnames hclasses
    hthen.append (elseBlock.inspected hthen.names hthen.classNames)
  | .exit loc kind, _, _, _, _, hnames, hclasses => .exit hnames hclasses loc kind
  | .assign .., _, _, _, _, hnames, hclasses => .nil hnames hclasses
  | .expr .., _, _, _, _, hnames, hclasses => .nil hnames hclasses
  | .optionExplicit _, _, _, _, _, hnames, hclasses => .nil hnames hclasses

theorem Stmt.inspectedAll : ∀ (stmts : List Stmt) {around : Option FunctionKind}
    {seen seenClasses : List Naming} {t : ScopeTables}, t.names.Knows seen →
    t.classes.Knows seenClasses →
    Inspected around seen seenClasses (Stmt.declaredAll Stmt.ownNaming stmts)
      (Stmt.declaredAll Stmt.ownClass stmts) (Stmt.declaredAll Stmt.ownExit stmts)
      (Stmt.allBodies stmts) (Stmt.inspectAll around t stmts)
  | [], _, _, _, _, hnames, hclasses => .nil hnames hclasses
  | stmt :: stmts, _, _, _, _, hnames, hclasses =>
    have hstmt := stmt.inspected hnames hclasses
    hstmt.append (Stmt.inspectedAll stmts hstmt.names hstmt.classNames)

theorem Block.inspected : ∀ (b : Block) {around : Option FunctionKind}
    {seen seenClasses : List Naming} {t : ScopeTables}, t.names.Knows seen →
    t.classes.Knows seenClasses →
    Inspected around seen seenClasses b.namings b.classes b.exits b.bodies (b.inspect around t)
  | ⟨_, stmts⟩, _, _, _, _, hnames, hclasses => Stmt.inspectedAll stmts hnames hclasses

theorem Block.inspected_body : ∀ (b : Block) (kind : FunctionKind),
    Inspected (some kind) [] [] b.namings b.classes b.exits b.bodies
      (b.inspect (some kind) .empty)
  | ⟨_, stmts⟩, _ =>
    Stmt.inspectedAll stmts (t := .empty) Declared.knows_empty Declared.knows_empty

theorem FunctionDecl.inspectedMethods : ∀ (methods : List FunctionDecl) {members : Declared}
    {seen : List Naming}, members.Knows seen →
    (FunctionDecl.inspectMethods members methods).Perm
      (redeclaredAfter seen (methods.map FunctionDecl.naming)
        ++ (FunctionDecl.allBodies methods).flatMap fun (kind, body) => body.findings (some kind))
  | [], _, _, _ => .refl _
  | ⟨loc, kind, name, _, body⟩ :: methods, members, seen, hmembers => by
    obtain ⟨hfound, hknows⟩ := hmembers.enter ⟨name, loc⟩
    have hrest := FunctionDecl.inspectedMethods methods hknows
    have hbody := (body.inspected_body kind).found
    refine List.perm_iff_count.mpr fun f => ?_
    have hcount := List.perm_iff_count.mp hrest f
    have hcount' := List.perm_iff_count.mp hbody f
    show ((members.enter name loc).1 ++ (body.inspect (some kind) .empty).1
        ++ FunctionDecl.inspectMethods (members.enter name loc).2 methods).count f
      = (redeclaredAfter seen ([⟨name, loc⟩] ++ methods.map FunctionDecl.naming)
        ++ ((kind, body) :: body.bodies ++ FunctionDecl.allBodies methods).flatMap
          fun (kind, body) => body.findings (some kind)).count f
    rw [redeclaredAfter_append]
    simp only [hfound, List.count_append, List.cons_append, List.flatMap_cons,
      List.flatMap_append, Block.findings, Block.classNamings, redeclarations_eq]
      at hcount hcount' ⊢
    omega
end

/-- **An analysis finds what its scopes contribute**, besides the late `option explicit`
statements. -/
theorem Block.inspect_perm (b : Block) :
    (b.inspect none .empty).1.Perm (b.allFindings none) := by
  have hall : Inspected none [] [] b.namings b.classes b.exits b.bodies (b.inspect none .empty) :=
    b.inspected (t := .empty) Declared.knows_empty Declared.knows_empty
  have hfound := hall.found
  rwa [← redeclarations_eq, ← redeclarations_eq] at hfound

/-! ## how many names are bound -/

namespace NameTable

variable {α : Type}

theorem isSome_find? {t : NameTable α} {n : String} :
    (t.find? n).isSome = true ↔ Text.fold n ∈ t.names := by
  rw [mem_names, find?, List.lookup_isSome_iff, List.mem_map]
  exact exists_congr fun e => and_congr_right fun _ => beq_iff_eq.trans eq_comm

/-- a table with one more thing in it has one more name, unless the name was there -/
theorem length_names_insert {t : NameTable α} (h : t.names.Nodup) (n : String) (a : α) :
    (t.insert n a).names.length
      = t.names.length + if Text.fold n ∈ t.names then 0 else 1 := by
  have hinsert := nodup_names_insert h n a
  split
  · rename_i hmem
    refine ((List.perm_ext_iff_of_nodup hinsert h).mpr fun k => ?_).length_eq
    rw [mem_names_insert]
    exact or_iff_left_of_imp fun hk => hk ▸ hmem
  · rename_i hmem
    have hcons : (Text.fold n :: t.names).Nodup := List.nodup_cons.mpr ⟨hmem, h⟩
    refine ((List.perm_ext_iff_of_nodup hinsert hcons).mpr fun k => ?_).length_eq
    rw [mem_names_insert, List.mem_cons, or_comm]

end NameTable

theorem length_redeclarations_append_singleton (ns : List Naming) (n : Naming) :
    (redeclarations (ns ++ [n])).length = (redeclarations ns).length
      + if Text.fold n.name ∈ ns.map fun e => Text.fold e.name then 1 else 0 := by
  rw [redeclarations_append_singleton, List.length_append]
  split
  · rename_i hmem
    obtain ⟨e, he, hsame⟩ := List.mem_map.mp hmem
    have hsome : (ns.find? fun e => Text.sameWord e.name n.name).isSome = true :=
      List.find?_isSome.mpr ⟨e, he, (Text.sameWord_iff _ _).mpr hsame⟩
    obtain ⟨first, hfirst⟩ := Option.isSome_iff_exists.mp hsome
    rw [hfirst]
    rfl
  · rename_i hmem
    have hnone : (ns.find? fun e => Text.sameWord e.name n.name) = none :=
      List.find?_eq_none.mpr fun e he hsame =>
        hmem (List.mem_map.mpr ⟨e, he, (Text.sameWord_iff _ _).mp hsame⟩)
    rw [hnone]
    rfl

namespace Store

variable {s s' : Store} {c : ScopeId} {ns : List Naming}

/-- a scope in which nothing is bound but the names of declarations -/
structure Tally (c : ScopeId) (ns : List Naming) (s : Store) : Prop where
  there : c.index < s.scopes.size
  once : (s.scope c).bindings.names.Nodup
  names : ∀ k, k ∈ (s.scope c).bindings.names ↔ k ∈ ns.map fun n => Text.fold n.name
  count : (redeclarations ns).length + (s.scope c).bindings.names.length = ns.length

namespace Tally

/-- a declaration that makes a binding, in place of one that is there -/
theorem declare (h : Tally c ns s) (n : Naming) (v : Value) :
    Tally c (ns ++ [n]) (s.declare c n.name v).2 := by
  have hscope := scope_declare h.there n.name v
  refine ⟨(ChangesOnly.declare c s n.name v).there h.there, ?_, fun k => ?_, ?_⟩
  · rw [hscope]
    exact NameTable.nodup_names_insert h.once _ _
  · rw [hscope]
    simp only [NameTable.mem_names_insert, h.names, List.map_append, List.map_singleton,
      List.mem_append, List.mem_singleton]
  · have hcount := h.count
    have hlength := NameTable.length_names_insert h.once n.name (⟨s.slots.size⟩ : SlotId)
    rw [hscope, hlength, length_redeclarations_append_singleton, List.length_append,
      List.length_singleton]
    simp only [h.names]
    split <;> omega

theorem dim_bound (h : Tally c ns s) {n : Naming}
    (hbound : Text.fold n.name ∈ (s.scope c).bindings.names) : Tally c (ns ++ [n]) s where
  there := h.there
  once := h.once
  names k := by
    rw [h.names, List.map_append, List.mem_append, List.map_singleton, List.mem_singleton]
    refine (or_iff_left_of_imp fun hk => ?_).symm
    rw [hk, ← h.names]
    exact hbound
  count := by
    have hcount := h.count
    rw [length_redeclarations_append_singleton, if_pos ((h.names _).mp hbound), List.length_append,
      List.length_singleton]
    omega

theorem hoistDim (h : Tally c ns s) (d : Dim) : Tally c (ns ++ [d.naming]) (s.hoistDim c d) := by
  unfold Store.hoistDim
  split
  · rename_i hfind
    exact h.dim_bound (NameTable.isSome_find?.mp (Option.isSome_iff_exists.mpr ⟨_, hfind⟩))
  · exact h.declare d.naming .empty

theorem modifyScope (h : Tally c ns s) {f : Scope → Scope}
    (hf : ∀ sc, (f sc).bindings = sc.bindings) : Tally c ns (s.modifyScope c f) := by
  have hbindings : ((s.modifyScope c f).scope c).bindings = (s.scope c).bindings := by
    rw [scope_modifyScope, apply_ite Scope.bindings, hf, ite_self]
  refine ⟨?_, hbindings ▸ h.once, hbindings ▸ h.names, hbindings ▸ h.count⟩
  rw [Store.modifyScope, Array.size_modify]
  exact h.there

end Tally

mutual
theorem binds_stmt : ∀ (stmt : Stmt) {ns : List Naming} {s : Store}, Tally c ns s →
    Tally c (ns ++ stmt.declared Stmt.ownNaming) (stmt.hoist c s)
  | .dim d, _, _, h => h.hoistDim d
  | .function d, _, s, h =>
    Tally.declare (s := (s.newFunction (.script d c)).2) ⟨h.there, h.once, h.names, h.count⟩
      d.naming _
  | .class _, ns, _, h => (List.append_nil ns).symm ▸ h.modifyScope fun _ => rfl
  | .optionExplicit _, ns, _, h => (List.append_nil ns).symm ▸ h.modifyScope fun _ => rfl
  | .cond _ _ thenBlock elseBlock, ns, _, h => by
    have helse := binds_block elseBlock (binds_block thenBlock h)
    rwa [List.append_assoc] at helse
  | .assign .., ns, _, h => (List.append_nil ns).symm ▸ h
  | .expr .., ns, _, h => (List.append_nil ns).symm ▸ h
  | .exit .., ns, _, h => (List.append_nil ns).symm ▸ h

theorem binds_all : ∀ (stmts : List Stmt) {ns : List Naming} {s : Store}, Tally c ns s →
    Tally c (ns ++ Stmt.declaredAll Stmt.ownNaming stmts) (Stmt.hoistAll c s stmts)
  | [], ns, _, h => (List.append_nil ns).symm ▸ h
  | stmt :: stmts, ns, _, h => by
    have hall := binds_all stmts (binds_stmt stmt h)
    rwa [List.append_assoc] at hall

theorem binds_block : ∀ (b : Block) {ns : List Naming} {s : Store}, Tally c ns s →
    Tally c (ns ++ b.namings) (b.hoist c s)
  | ⟨_, stmts⟩, _, _, h => binds_all stmts h
end

/-- **Hoisting binds each name once**: every declaration of a variable or function makes a binding
in a scope without bindings, except for those whose name was declared before. -/
theorem hoist_count (hc : c.index < s.scopes.size) (hfresh : (s.scope c).bindings = .empty)
    (b : Block) :
    (redeclarations b.namings).length + ((b.hoist c s).scope c).bindings.names.length
      = b.namings.length := by
  have htally : Tally c [] s := by
    refine ⟨hc, ?_, fun k => ?_, ?_⟩
    · rw [hfresh, NameTable.names_empty]
      exact List.nodup_nil
    · rw [hfresh, NameTable.names_empty]
      rfl
    · rw [hfresh, NameTable.names_empty]
      rfl
  exact (binds_block b htally).count

end Store

/-! ## analysis and hoisting -/

theorem finding_of_mem_redeclarations {ns : List Naming} {d : Diagnostic}
    (hd : d ∈ redeclarations ns) : d.finding ≠ .lateExplicit := by
  obtain ⟨⟨n, i⟩, -, hsome⟩ := List.mem_filterMap.mp hd
  obtain ⟨first, -, rfl⟩ := Option.map_eq_some_iff.mp hsome
  exact fun h => nomatch h

theorem finding_of_mem_exitFindings {around : Option FunctionKind}
    {exits : List (Location × FunctionKind)} {d : Diagnostic} (hd : d ∈ exitFindings around exits) :
    d.finding ≠ .lateExplicit := by
  cases around with
  | none =>
    obtain ⟨e, -, rfl⟩ := List.mem_map.mp hd
    exact fun h => nomatch h
  | some kind =>
    obtain ⟨e, -, rfl⟩ := List.mem_map.mp hd
    exact fun h => nomatch h

namespace Block

theorem finding_of_mem_findings {b : Block} {around : Option FunctionKind} {d : Diagnostic}
    (hd : d ∈ b.findings around) : d.finding ≠ .lateExplicit := by
  rcases List.mem_append.mp hd with hd | hd
  · rcases List.mem_append.mp hd with hd | hd
    · rcases List.mem_append.mp hd with hd | hd
      · exact finding_of_mem_redeclarations hd
      · exact finding_of_mem_redeclarations hd
    · obtain ⟨_, -, hd⟩ := List.mem_flatMap.mp hd
      exact finding_of_mem_redeclarations hd
  · exact finding_of_mem_exitFindings hd

/-- no other finding is one about `option explicit` -/
theorem finding_of_mem_inspect {b : Block} {d : Diagnostic}
    (hd : d ∈ (b.inspect none .empty).1) : d.finding ≠ .lateExplicit := by
  rcases List.mem_append.mp (b.inspect_perm.mem_iff.mp hd) with hd | hd
  · exact finding_of_mem_findings hd
  · obtain ⟨_, -, hd⟩ := List.mem_flatMap.mp hd
    exact finding_of_mem_findings hd

theorem mem_lateExplicit? {stmts : List Stmt} {d : Diagnostic}
    (hd : d ∈ stmts.filterMap Stmt.lateExplicit?) : d.finding = .lateExplicit := by
  obtain ⟨stmt, -, hsome⟩ := List.mem_filterMap.mp hd
  cases stmt <;> cases hsome
  rfl

/-- **Analysis is exact, and agrees with hoisting.**  Besides the `option explicit` statements it
finds what the scopes of the program contribute and nothing else: a warning for each variable,
function, class or member whose name was declared before, an error for each `exit` of another kind
than the function around it, and an information for each `exit` outside of functions.  And in a
scope without bindings, hoisting makes one for every variable and function of a block but those that
are found to be declared before. -/
theorem analysis_agrees (b : Block) :
    (b.analyze.filter (·.finding ≠ .lateExplicit)).Perm
        (b.findings none ++ b.bodies.flatMap fun (kind, body) => body.findings (some kind)) ∧
      (∀ ns, ∀ d ∈ redeclarations ns, d.level = .warning) ∧
      (∀ around exits, ∀ d ∈ exitFindings around exits,
        d.level = if around.isSome then .error else .info) ∧
      ∀ (s : Store) (c : ScopeId), c.index < s.scopes.size → (s.scope c).bindings = .empty →
        (redeclarations b.namings).length + ((b.hoist c s).scope c).bindings.names.length
          = b.namings.length := by
  refine ⟨?_, fun _ _ => level_of_mem_redeclarations, fun _ _ _ => level_of_mem_exitFindings,
    fun s c hc hfresh => Store.hoist_count hc hfresh b⟩
  have hlate : (b.statements.tail.filterMap Stmt.lateExplicit?).filter
      (·.finding ≠ .lateExplicit) = [] := by
    refine List.filter_eq_nil_iff.mpr fun d hd => ?_
    simp [mem_lateExplicit? hd]
  have hothers : (b.inspect none .empty).1.filter (·.finding ≠ .lateExplicit)
      = (b.inspect none .empty).1 := by
    refine List.filter_eq_self.mpr fun d hd => ?_
    simp [finding_of_mem_inspect hd]
  rw [analyze, List.filter_append, hlate, hothers]
  exact b.inspect_perm

/-- `dim a`, a condition with `dim A` in its branch, `sub a` with `exit function` in it, and
`exit sub` -/
def repeatedNames : Block :=
  ⟨⟨"page", 1, 1⟩, [.dim ⟨⟨"page", 1, 5⟩, "a"⟩,
    .cond ⟨"page", 2, 1⟩ (.path ⟨"page", 2, 4⟩ ["a"])
      ⟨⟨"page", 3, 5⟩, [.dim ⟨⟨"page", 3, 9⟩, "A"⟩]⟩ ⟨⟨"page", 4, 1⟩, []⟩,
    .function ⟨⟨"page", 5, 1⟩, .sub, "a", [],
      ⟨⟨"page", 6, 3⟩, [.exit ⟨"page", 6, 3⟩ .function]⟩⟩,
    .exit ⟨"page", 8, 1⟩ .sub]⟩

/-- three declarations of one name make one binding -/
theorem analysis_agrees_repeatedNames :
    let fresh := (Store.empty.newGlobal false).2
    (0 < fresh.scopes.size ∧ (fresh.scope ⟨0⟩).bindings = .empty) ∧
      2 + ((repeatedNames.hoist ⟨0⟩ fresh).scope ⟨0⟩).bindings.names.length = 3 ∧
      (repeatedNames.analyze.filter (·.finding ≠ .lateExplicit)).Perm
        [⟨⟨"page", 3, 9⟩, .redeclared "A" ⟨"page", 1, 5⟩⟩,
          ⟨⟨"page", 5, 1⟩, .redeclared "a" ⟨"page", 1, 5⟩⟩, ⟨⟨"page", 8, 1⟩, .outerExit .sub⟩,
          ⟨⟨"page", 6, 3⟩, .wrongExit .function .sub⟩] := by
  intro fresh
  have hfresh : 0 < fresh.scopes.size ∧ (fresh.scope ⟨0⟩).bindings = .empty := by
    exact ⟨by decide, rfl⟩
  obtain ⟨hperm, -, -, hcount⟩ := repeatedNames.analysis_agrees
  exact ⟨hfresh, hcount fresh ⟨0⟩ hfresh.1 hfresh.2, hperm⟩

end Block

/-! ## `option explicit` behind other statements -/

def Stmt.ownExplicit : Stmt → List Location
  | .optionExplicit loc => [loc]
  | _ => []

/-- the `option explicit` statements in the branches of a condition -/
def Stmt.nestedExplicits : Stmt → List Location
  | .cond _ _ thenBlock elseBlock =>
    thenBlock.declared Stmt.ownExplicit ++ elseBlock.declared Stmt.ownExplicit
  | _ => []

theorem Stmt.declared_ownExplicit (stmt : Stmt) :
    stmt.declared Stmt.ownExplicit = stmt.ownExplicit ++ stmt.nestedExplicits := by
  cases stmt <;> rfl

theorem Stmt.declaredAll_ownExplicit (stmts : List Stmt) :
    (Stmt.declaredAll Stmt.ownExplicit stmts).Perm
      (stmts.flatMap Stmt.ownExplicit ++ stmts.flatMap Stmt.nestedExplicits) := by
  induction stmts with
  | nil => exact .refl _
  | cons stmt stmts ih =>
    refine List.perm_iff_count.mpr fun loc => ?_
    have hcount := List.perm_iff_count.mp ih loc
    rw [Stmt.declaredAll, Stmt.declared_ownExplicit]
    simp only [List.flatMap_cons, List.count_append] at hcount ⊢
    omega

theorem Stmt.filterMap_lateExplicit? (stmts : List Stmt) :
    stmts.filterMap Stmt.lateExplicit?
      = (stmts.flatMap Stmt.ownExplicit).map fun loc => ⟨loc, .lateExplicit⟩ := by
  induction stmts with
  | nil => rfl
  | cons stmt stmts ih =>
    rw [List.flatMap_cons, List.map_append, ← ih]
    cases stmt <;> rfl

theorem any_isOptionExplicit (ds : List Stmt) :
    ds.any Stmt.isOptionExplicit = !(ds.flatMap Stmt.ownExplicit).isEmpty := by
  induction ds with
  | nil => rfl
  | cons d ds ih =>
    rw [List.any_cons, ih, List.flatMap_cons]
    cases d <;> rfl

/-! ### what is taken from what is taken -/

mutual
theorem Stmt.declared_flatMap {α β : Type} (pick : Stmt → List α) (f : α → List β) :
    ∀ stmt : Stmt, stmt.declared (fun stmt => (pick stmt).flatMap f)
      = (stmt.declared pick).flatMap f
  | .cond _ _ thenBlock elseBlock => by
    rw [Stmt.declared, Stmt.declared, List.flatMap_append, Block.declared_flatMap pick f thenBlock,
      Block.declared_flatMap pick f elseBlock]
  | .dim _ => rfl
  | .function _ => rfl
  | .class _ => rfl
  | .assign .. => rfl
  | .expr .. => rfl
  | .optionExplicit _ => rfl
  | .exit .. => rfl

theorem Stmt.declaredAll_flatMap {α β : Type} (pick : Stmt → List α) (f : α → List β) :
    ∀ stmts : List Stmt, Stmt.declaredAll (fun stmt => (pick stmt).flatMap f) stmts
      = (Stmt.declaredAll pick stmts).flatMap f
  | [] => rfl
  | stmt :: stmts => by
    rw [Stmt.declaredAll, Stmt.declaredAll, List.flatMap_append, Stmt.declared_flatMap pick f stmt,
      Stmt.declaredAll_flatMap pick f stmts]

theorem Block.declared_flatMap {α β : Type} (pick : Stmt → List α) (f : α → List β) :
    ∀ b : Block, b.declared (fun stmt => (pick stmt).flatMap f) = (b.declared pick).flatMap f
  | ⟨_, stmts⟩ => Stmt.declaredAll_flatMap pick f stmts
end

namespace Block

/-- the `option explicit` statements that hoisting takes into account -/
def explicits (b : Block) : List Location := b.declared Stmt.ownExplicit

/-- those among them that are not the first statement of the program -/
def lateExplicits (b : Block) : List Location :=
  match b.statements with
  | .optionExplicit _ :: _ => b.explicits.tail
  | _ => b.explicits

/-- those among them that stand in a branch of a condition -/
def nestedExplicits (b : Block) : List Location := b.statements.flatMap Stmt.nestedExplicits

/-- those among them that are statements of the program itself, but not its first -/
def directLateExplicits (b : Block) : List Location := b.statements.tail.flatMap Stmt.ownExplicit

theorem explicits_eq (b : Block) : b.explicits = b.declarations.flatMap Stmt.ownExplicit := by
  rw [declarations, ← declared_flatMap]
  refine congrArg b.declared (funext fun stmt => ?_)
  cases stmt <;> rfl

/-- a late `option explicit` stands in a branch or behind other statements -/
theorem lateExplicits_perm (b : Block) :
    b.lateExplicits.Perm (b.directLateExplicits ++ b.nestedExplicits) := by
  obtain ⟨loc, stmts⟩ := b
  cases stmts with
  | nil => exact .refl _
  | cons stmt stmts =>
    have hrest := Stmt.declaredAll_ownExplicit stmts
    have hlate : (⟨loc, stmt :: stmts⟩ : Block).lateExplicits
        = stmt.nestedExplicits ++ Stmt.declaredAll Stmt.ownExplicit stmts := by
      cases stmt <;> rfl
    rw [hlate, directLateExplicits, nestedExplicits, List.flatMap_cons]
    refine List.perm_iff_count.mpr fun loc => ?_
    have hcount := List.perm_iff_count.mp hrest loc
    simp only [List.tail_cons, List.count_append] at hcount ⊢
    omega

theorem filter_lateExplicit (b : Block) :
    b.analyze.filter (·.finding = .lateExplicit)
      = b.directLateExplicits.map fun loc => ⟨loc, .lateExplicit⟩ := by
  have hlate : (b.statements.tail.filterMap Stmt.lateExplicit?).filter (·.finding = .lateExplicit)
      = b.statements.tail.filterMap Stmt.lateExplicit? := by
    refine List.filter_eq_self.mpr fun d hd => ?_
    simp [mem_lateExplicit? hd]
  have hothers : (b.inspect none .empty).1.filter (·.finding = .lateExplicit) = [] := by
    refine List.filter_eq_nil_iff.mpr fun d hd => ?_
    simp [finding_of_mem_inspect hd]
  rw [analyze, List.filter_append, hlate, hothers, List.append_nil, Stmt.filterMap_lateExplicit?]
  rfl

theorem mem_analyze_lateExplicit (b : Block) (loc : Location) :
    ⟨loc, .lateExplicit⟩ ∈ b.analyze ↔ loc ∈ b.directLateExplicits := by
  have hfilter : ⟨loc, .lateExplicit⟩ ∈ b.analyze.filter (·.finding = .lateExplicit)
      ↔ ⟨loc, .lateExplicit⟩ ∈ b.analyze := by simp
  rw [← hfilter, filter_lateExplicit]
  simp

/-- **Which late `option explicit` statements are reported.**  Each of those that hoisting takes
into account switches the explicit mode on.  The analysis warns about the ones that are statements of the
program itself, in the order of the text, and about no other: so all late ones are reported exactly
if those in branches of conditions have the places of such statements. -/
theorem late_explicits (b : Block) :
    (∀ (s : Store) (c : ScopeId), c.index < s.scopes.size →
      ((b.hoist c s).scope c).isExplicit = ((s.scope c).isExplicit || !b.explicits.isEmpty)) ∧
    b.lateExplicits.Perm (b.directLateExplicits ++ b.nestedExplicits) ∧
    b.analyze.filter (·.finding = .lateExplicit)
      = b.directLateExplicits.map (fun loc => ⟨loc, .lateExplicit⟩) ∧
    ((∀ loc ∈ b.lateExplicits, ⟨loc, .lateExplicit⟩ ∈ b.analyze)
      ↔ ∀ loc ∈ b.nestedExplicits, loc ∈ b.directLateExplicits) := by
  refine ⟨fun s c hc => ?_, b.lateExplicits_perm, b.filter_lateExplicit, ?_⟩
  · rw [(Store.hoisted_block b hc).isExplicit, any_isOptionExplicit, explicits_eq]
  · simp only [b.mem_analyze_lateExplicit, b.lateExplicits_perm.mem_iff, List.mem_append]
    exact ⟨fun h loc hloc => h loc (.inr hloc), fun h loc hloc => hloc.elim id (h loc)⟩

def explicitInBranch : Block :=
  ⟨⟨"page", 1, 1⟩, [.cond ⟨"page", 1, 1⟩ (.path ⟨"page", 1, 4⟩ ["a"])
    ⟨⟨"page", 1, 10⟩, [.optionExplicit ⟨"page", 2, 1⟩]⟩ ⟨⟨"page", 3, 1⟩, []⟩]⟩

/-- it is taken into account and is not the first statement, and nothing is reported -/
theorem explicitInBranch_unreported :
    ¬ ∀ b : Block, ∀ loc ∈ b.lateExplicits, ⟨loc, .lateExplicit⟩ ∈ b.analyze := by
  intro h
  have hreported := h explicitInBranch ⟨"page", 2, 1⟩ (by decide)
  have hnone : explicitInBranch.analyze = [] := by decide
  rw [hnone] at hreported
  cases hreported

/-- the branch switches the explicit mode on, without a warning -/
theorem late_explicits_explicitInBranch :
    let fresh := (Store.empty.newGlobal false).2
    0 < fresh.scopes.size ∧ (fresh.scope ⟨0⟩).isExplicit = false ∧
      ((explicitInBranch.hoist ⟨0⟩ fresh).scope ⟨0⟩).isExplicit = true ∧
      explicitInBranch.lateExplicits = [⟨"page", 2, 1⟩] ∧
      explicitInBranch.analyze.filter (·.finding = .lateExplicit) = [] := by
  intro fresh
  have hc : 0 < fresh.scopes.size := by decide
  obtain ⟨hexplicit, -, hfilter, -⟩ := explicitInBranch.late_explicits
  exact ⟨hc, rfl, hexplicit fresh ⟨0⟩ hc, rfl, hfilter⟩

end Block

end PageScript
