import Mathlib.Data.List.Forall2
import PageScript.Program.Source
import PageScript.RuntimeError
import PageScript.Store

/-!
# Programs that are alike

Two trees are alike when they have the same nodes and their names and locations correspond.  What
corresponds is a `Likeness`; names that are put together from corresponding parts have to
correspond again, since reports quote paths and whole expressions.

* `Expr.Alike`, `Stmt.Alike`, `Block.Alike`   one rule for every kind of node;
* `Block.alike_self`, `Block.Alike.eq`        where only equals correspond, a tree is like itself alone;
* `Expr.Alike.source`                         source texts of trees that are alike correspond;
* `RuntimeFault.Alike`                        faults of one kind that quote corresponding names.
-/

namespace PageScript

/-- which names and which locations correspond -/
structure Likeness where
  names : String → String → Prop
  locs : Location → Location → Prop
  names_refl : ∀ n, names n n
  names_append : ∀ {a a' b b'}, names a a' → names b b' → names (a ++ b) (a' ++ b')

/-- names and locations correspond only to themselves -/
def Likeness.equal : Likeness where
  names := Eq
  locs := Eq
  names_refl _ := rfl
  names_append h h' := by rw [h, h']

variable (k : Likeness)

/-! ## expressions -/

mutual
inductive Expr.Alike : Expr → Expr → Prop
  | literal {l l' v} : k.locs l l' → Alike (.literal l v) (.literal l' v)
  | path {l l' ns ns'} : k.locs l l' → List.Forall₂ k.names ns ns' → Alike (.path l ns) (.path l' ns')
  | binary {l l' op a a' b b'} :
    k.locs l l' → Alike a a' → Alike b b' → Alike (.binary l op a b) (.binary l' op a' b')
  | unary {l l' op a a'} : k.locs l l' → Alike a a' → Alike (.unary l op a) (.unary l' op a')
  | call {l l' f f' as as'} :
    k.locs l l' → Alike f f' → Expr.AllAlike as as' → Alike (.call l f as) (.call l' f' as')
  | new {l l' c c'} : k.locs l l' → k.names c c' → Alike (.new l c) (.new l' c')
  | paren {l l' a a'} : k.locs l l' → Alike a a' → Alike (.paren l a) (.paren l' a')

inductive Expr.AllAlike : List Expr → List Expr → Prop
  | nil : AllAlike [] []
  | cons {e e' es es'} : Expr.Alike e e' → AllAlike es es' → AllAlike (e :: es) (e' :: es')
end

/-! ## statements -/

structure Param.Alike (p p' : Param) : Prop where
  loc : k.locs p.loc p'.loc
  name : k.names p.name p'.name
  byRef : p.byRef = p'.byRef

structure Dim.Alike (d d' : Dim) : Prop where
  loc : k.locs d.loc d'.loc
  name : k.names d.name d'.name

mutual
inductive Stmt.Alike : Stmt → Stmt → Prop
  | function {d d'} : FunctionDecl.Alike d d' → Stmt.Alike (.function d) (.function d')
  | class {d d'} : ClassDecl.Alike d d' → Stmt.Alike (.class d) (.class d')
  | dim {d d'} : d.Alike k d' → Stmt.Alike (.dim d) (.dim d')
  | assign {l l' t t' v v'} :
    k.locs l l' → t.Alike k t' → v.Alike k v' → Stmt.Alike (.assign l t v) (.assign l' t' v')
  | cond {l l' c c' t t' e e'} : k.locs l l' → c.Alike k c' → Block.Alike t t' → Block.Alike e e' →
    Stmt.Alike (.cond l c t e) (.cond l' c' t' e')
  | expr {l l' e e'} : k.locs l l' → e.Alike k e' → Stmt.Alike (.expr l e) (.expr l' e')
  | optionExplicit {l l'} : k.locs l l' → Stmt.Alike (.optionExplicit l) (.optionExplicit l')
  | exit {l l' kind} : k.locs l l' → Stmt.Alike (.exit l kind) (.exit l' kind)

inductive Stmt.AllAlike : List Stmt → List Stmt → Prop
  | nil : Stmt.AllAlike [] []
  | cons {s s' ss ss'} : Stmt.Alike s s' → Stmt.AllAlike ss ss' → Stmt.AllAlike (s :: ss) (s' :: ss')

inductive Block.Alike : Block → Block → Prop
  | mk {l l' ss ss'} : k.locs l l' → Stmt.AllAlike ss ss' → Block.Alike ⟨l, ss⟩ ⟨l', ss'⟩

inductive FunctionDecl.Alike : FunctionDecl → FunctionDecl → Prop
  | mk {l l' kind n n' ps ps' b b'} : k.locs l l' → k.names n n' →
    List.Forall₂ (Param.Alike k) ps ps' → Block.Alike b b' →
    FunctionDecl.Alike ⟨l, kind, n, ps, b⟩ ⟨l', kind, n', ps', b'⟩

inductive FunctionDecl.AllAlike : List FunctionDecl → List FunctionDecl → Prop
  | nil : FunctionDecl.AllAlike [] []
  | cons {d d' ds ds'} :
    FunctionDecl.Alike d d' → FunctionDecl.AllAlike ds ds' → FunctionDecl.AllAlike (d :: ds) (d' :: ds')

inductive ClassDecl.Alike : ClassDecl → ClassDecl → Prop
  | mk {l l' n n' fs fs' ms ms'} : k.locs l l' → k.names n n' →
    List.Forall₂ (Dim.Alike k) fs fs' → FunctionDecl.AllAlike ms ms' →
    ClassDecl.Alike ⟨l, n, fs, ms⟩ ⟨l', n', fs', ms'⟩
end

/-- functions of one scope that are declared alike, or one routine of the host -/
inductive Function.Alike : Function → Function → Prop
  | script {d d' home} : d.Alike k d' → Alike (.script d home) (.script d' home)
  | host {n n' home r} : k.names n n' → Alike (.host n home r) (.host n' home r)

/-- faults of one kind that quote corresponding names -/
inductive RuntimeFault.Alike : RuntimeFault → RuntimeFault → Prop
  | same (f) : Alike f f
  | undeclared {n n'} : k.names n n' → Alike (.undeclared n) (.undeclared n')
  | notCallable {n n'} : k.names n n' → Alike (.notCallable n) (.notCallable n')
  | arityMismatch {n n' expected actual} : k.names n n' →
    Alike (.arityMismatch n expected actual) (.arityMismatch n' expected actual)
  | notAnObject {n n'} : k.names n n' → Alike (.notAnObject n) (.notAnObject n')
  | unknownMember {n n'} : k.names n n' → Alike (.unknownMember n) (.unknownMember n')
  | unknownClass {n n'} : k.names n n' → Alike (.unknownClass n) (.unknownClass n')

variable {k}

/-! ## a tree is like itself -/

mutual
theorem Expr.alike_self : ∀ e : Expr, e.Alike .equal e
  | .literal .. => .literal rfl
  | .path .. => .path rfl (List.forall₂_same.mpr fun _ _ => rfl)
  | .binary _ _ a b => .binary rfl a.alike_self b.alike_self
  | .unary _ _ a => .unary rfl a.alike_self
  | .call _ f as => .call rfl f.alike_self (Expr.allAlike_self as)
  | .new .. => .new rfl rfl
  | .paren _ a => .paren rfl a.alike_self

theorem Expr.allAlike_self : ∀ es : List Expr, Expr.AllAlike .equal es es
  | [] => .nil
  | e :: es => .cons e.alike_self (Expr.allAlike_self es)
end

theorem Param.alike_self (p : Param) : p.Alike .equal p := ⟨rfl, rfl, rfl⟩

theorem Dim.alike_self (d : Dim) : d.Alike .equal d := ⟨rfl, rfl⟩

mutual
theorem Stmt.alike_self : ∀ s : Stmt, s.Alike .equal s
  | .function d => .function d.alike_self
  | .class d => .class d.alike_self
  | .dim d => .dim d.alike_self
  | .assign _ t v => .assign rfl t.alike_self v.alike_self
  | .cond _ c t e => .cond rfl c.alike_self t.alike_self e.alike_self
  | .expr _ e => .expr rfl e.alike_self
  | .optionExplicit _ => .optionExplicit rfl
  | .exit .. => .exit rfl

theorem Stmt.allAlike_self : ∀ ss : List Stmt, Stmt.AllAlike .equal ss ss
  | [] => .nil
  | s :: ss => .cons s.alike_self (Stmt.allAlike_self ss)

theorem Block.alike_self : ∀ b : Block, b.Alike .equal b
  | ⟨_, ss⟩ => .mk rfl (Stmt.allAlike_self ss)

theorem FunctionDecl.alike_self : ∀ d : FunctionDecl, d.Alike .equal d
  | ⟨_, _, _, _, b⟩ => .mk rfl rfl (List.forall₂_same.mpr fun p _ => p.alike_self) b.alike_self

theorem FunctionDecl.allAlike_self : ∀ ds : List FunctionDecl, FunctionDecl.AllAlike .equal ds ds
  | [] => .nil
  | d :: ds => .cons d.alike_self (FunctionDecl.allAlike_self ds)

theorem ClassDecl.alike_self : ∀ d : ClassDecl, d.Alike .equal d
  | ⟨_, _, _, ms⟩ =>
    .mk rfl rfl (List.forall₂_same.mpr fun d _ => d.alike_self) (FunctionDecl.allAlike_self ms)
end

theorem Function.alike_self (f : Function) : f.Alike .equal f := by
  cases f with
  | script d _ => exact .script d.alike_self
  | host => exact .host rfl

/-! ## nothing else is like it where only equals correspond -/

theorem forall₂_eq {α : Type} {R : α → α → Prop} (h : ∀ {a b}, R a b → a = b) {as bs : List α}
    (hs : List.Forall₂ R as bs) : as = bs := by
  induction hs with
  | nil => rfl
  | cons ha _ ih => rw [h ha, ih]

mutual
theorem Expr.Alike.eq : ∀ {e e' : Expr}, e.Alike .equal e' → e = e'
  | _, _, .literal rfl => rfl
  | _, _, .path rfl hns => by rw [forall₂_eq id hns]
  | _, _, .binary rfl ha hb => by rw [ha.eq, hb.eq]
  | _, _, .unary rfl ha => by rw [ha.eq]
  | _, _, .call rfl hf has => by rw [hf.eq, has.eq]
  | _, _, .new rfl rfl => rfl
  | _, _, .paren rfl ha => by rw [ha.eq]

theorem Expr.AllAlike.eq : ∀ {es es' : List Expr}, Expr.AllAlike .equal es es' → es = es'
  | _, _, .nil => rfl
  | _, _, .cons he hes => by rw [he.eq, hes.eq]
end

theorem Param.Alike.eq : ∀ {p p' : Param}, p.Alike .equal p' → p = p'
  | ⟨_, _, _⟩, ⟨_, _, _⟩, ⟨rfl, rfl, rfl⟩ => rfl

theorem Dim.Alike.eq : ∀ {d d' : Dim}, d.Alike .equal d' → d = d'
  | ⟨_, _⟩, ⟨_, _⟩, ⟨rfl, rfl⟩ => rfl

mutual
theorem Stmt.Alike.eq : ∀ {s s' : Stmt}, s.Alike .equal s' → s = s'
  | _, _, .function hd => by rw [hd.eq]
  | _, _, .class hd => by rw [hd.eq]
  | _, _, .dim hd => by rw [hd.eq]
  | _, _, .assign rfl ht hv => by rw [ht.eq, hv.eq]
  | _, _, .cond rfl hc ht he => by rw [hc.eq, ht.eq, he.eq]
  | _, _, .expr rfl he => by rw [he.eq]
  | _, _, .optionExplicit rfl => rfl
  | _, _, .exit rfl => rfl

theorem Stmt.AllAlike.eq : ∀ {ss ss' : List Stmt}, Stmt.AllAlike .equal ss ss' → ss = ss'
  | _, _, .nil => rfl
  | _, _, .cons hs hss => by rw [hs.eq, hss.eq]

theorem Block.Alike.eq : ∀ {b b' : Block}, b.Alike .equal b' → b = b'
  | _, _, .mk rfl hss => by rw [hss.eq]

theorem FunctionDecl.Alike.eq : ∀ {d d' : FunctionDecl}, d.Alike .equal d' → d = d'
  | _, _, .mk rfl rfl hps hb => by rw [forall₂_eq Param.Alike.eq hps, hb.eq]

theorem FunctionDecl.AllAlike.eq :
    ∀ {ds ds' : List FunctionDecl}, FunctionDecl.AllAlike .equal ds ds' → ds = ds'
  | _, _, .nil => rfl
  | _, _, .cons hd hds => by rw [hd.eq, hds.eq]

theorem ClassDecl.Alike.eq : ∀ {d d' : ClassDecl}, d.Alike .equal d' → d = d'
  | _, _, .mk rfl rfl hfs hms => by rw [forall₂_eq Dim.Alike.eq hfs, hms.eq]
end

theorem RuntimeFault.Alike.eq {f f' : RuntimeFault} (h : f.Alike .equal f') : f = f' := by
  cases h with
  | same => rfl
  | _ hn => rw [show _ = _ from hn]

/-! ## lists of trees that are alike, one by one -/

theorem Expr.allAlike_of_forall₂ {es es' : List Expr} (h : List.Forall₂ (Expr.Alike k) es es') :
    Expr.AllAlike k es es' := by
  induction h with
  | nil => exact .nil
  | cons he _ ih => exact .cons he ih

theorem Stmt.allAlike_of_forall₂ {ss ss' : List Stmt} (h : List.Forall₂ (Stmt.Alike k) ss ss') :
    Stmt.AllAlike k ss ss' := by
  induction h with
  | nil => exact .nil
  | cons hs _ ih => exact .cons hs ih

theorem FunctionDecl.allAlike_of_forall₂ {ds ds' : List FunctionDecl}
    (h : List.Forall₂ (FunctionDecl.Alike k) ds ds') : FunctionDecl.AllAlike k ds ds' := by
  induction h with
  | nil => exact .nil
  | cons hd _ ih => exact .cons hd ih

/-! ## what trees that are alike share -/

theorem Expr.Alike.location {e e' : Expr} (h : e.Alike k e') : k.locs e.location e'.location := by
  cases h <;> assumption

theorem Stmt.Alike.location {s s' : Stmt} (h : s.Alike k s') : k.locs s.location s'.location := by
  cases h with
  | function hd => cases hd; assumption
  | «class» hd => cases hd; assumption
  | dim hd => exact hd.loc
  | _ => assumption

theorem FunctionDecl.Alike.name {d d' : FunctionDecl} (h : d.Alike k d') :
    k.names d.name d'.name := by
  cases h; assumption

theorem FunctionDecl.Alike.kind {d d' : FunctionDecl} (h : d.Alike k d') : d.kind = d'.kind := by
  cases h; rfl

theorem FunctionDecl.Alike.params {d d' : FunctionDecl} (h : d.Alike k d') :
    List.Forall₂ (Param.Alike k) d.params d'.params := by
  cases h; assumption

theorem FunctionDecl.Alike.body {d d' : FunctionDecl} (h : d.Alike k d') :
    d.body.Alike k d'.body := by
  cases h; assumption

theorem intercalate_cons_cons (sep a b : String) (ns : List String) :
    sep.intercalate (a :: b :: ns) = a ++ sep ++ sep.intercalate (b :: ns) := by
  apply String.toList_injective
  simp [String.toList_intercalate]

/-- corresponding names that are joined correspond -/
theorem Likeness.names_intercalate (sep : String) {ns ns' : List String}
    (h : List.Forall₂ k.names ns ns') : k.names (sep.intercalate ns) (sep.intercalate ns') := by
  induction h with
  | nil => exact k.names_refl _
  | cons hn hns ih =>
    cases hns with
    | nil => simpa using hn
    | cons hn' hns' =>
      rw [intercalate_cons_cons, intercalate_cons_cons]
      exact k.names_append (k.names_append hn (k.names_refl sep)) ih

theorem Likeness.names_dotted {ns ns' : List String} (h : List.Forall₂ k.names ns ns') :
    k.names (dotted ns) (dotted ns') :=
  names_intercalate "." h

mutual
/-- the source texts of expressions that are alike correspond -/
theorem Expr.Alike.source : ∀ {e e' : Expr}, e.Alike k e' → k.names e.source e'.source
  | _, _, .literal _ => k.names_refl _
  | _, _, .path _ hns => k.names_dotted hns
  | _, _, .binary _ ha hb =>
    k.names_append (k.names_append (k.names_append (k.names_append ha.source (k.names_refl _))
      (k.names_refl _)) (k.names_refl _)) hb.source
  | .unary _ .neg _, _, .unary _ ha => k.names_append (k.names_refl _) ha.source
  | .unary _ .not _, _, .unary _ ha => k.names_append (k.names_refl _) ha.source
  | _, _, .call _ hf has =>
    k.names_append (k.names_append (k.names_append hf.source (k.names_refl _))
      (k.names_intercalate _ has.sources)) (k.names_refl _)
  | _, _, .new _ hc => k.names_append (k.names_refl _) hc
  | _, _, .paren _ ha =>
    k.names_append (k.names_append (k.names_refl _) ha.source) (k.names_refl _)

theorem Expr.AllAlike.sources :
    ∀ {es es' : List Expr}, Expr.AllAlike k es es' →
      List.Forall₂ k.names (Expr.sources es) (Expr.sources es')
  | _, _, .nil => .nil
  | _, _, .cons he hes => .cons he.source hes.sources
end

end PageScript
