import Mathlib.Order.Basic
import PageScript.Eval.Statement
import PageScript.Proofs.Program.Alike

/-!
# Runs side by side

The evaluator is written for every runner at once, so whatever holds of the single steps of two
runners holds of whole evaluations.  A `Simulation` is such a comparison: a relation between the
computations of two runners that returning, sequencing and holding keep, and that relates each
single step to the step of the other runner at a corresponding place of a program that is alike.

Both runners give out the same identities, so values, slots and objects are simply equal.  What is
known of a scope may grow during a run: `W` is the order of what is known, and `scope w` says which
scopes are fit to run code in at `w`.

Main statement: two evaluations of programs that are alike are related as soon as the two ways to
run a script function are (`Simulation.eval`, `Simulation.execute`, `Simulation.runWith`, with one
lemma for every function of the evaluator on the way).
-/

set_option linter.unusedSectionVars false

namespace PageScript

open Eval Runner

/-! ## paths cut at their end -/

theorem forall₂_dropLast {α : Type} {R : α → α → Prop} {as bs : List α}
    (h : List.Forall₂ R as bs) : List.Forall₂ R as.dropLast bs.dropLast := by
  rw [List.dropLast_eq_take, List.dropLast_eq_take, h.length_eq]
  exact List.forall₂_take _ h

theorem forall₂_getLast {α : Type} {R : α → α → Prop} {as bs : List α}
    (h : List.Forall₂ R as bs) (has : as ≠ []) (hbs : bs ≠ []) :
    R (as.getLast has) (bs.getLast hbs) := by
  induction h with
  | nil => contradiction
  | cons hab hs ih =>
    cases hs with
    | nil => exact hab
    | cons _ _ => exact ih (by simp) (by simp)

/-! ## single steps -/

/-- every routine of the host that a function stands for is one of some -/
def Function.Uses (some : Routine → Prop) : Function → Prop
  | .script .. => True
  | .host _ _ routine => some routine

/-- the steps of two evaluations at corresponding places of programs that are alike, where they
have the same result; `fit` are the scopes that code runs in, `uses` the routines of the host -/
inductive StepsAlike (k : Likeness) (fit : ScopeId → Prop) (uses : Routine → Prop) :
    {α : Type} → Eval α → Eval α → Prop
  | check {α : Type} {l l'} (r : Except RuntimeFault α) : k.locs l l' →
    StepsAlike k fit uses (check l r) (check l' r)
  | getSlot (id) : StepsAlike k fit uses (getSlot id) (getSlot id)
  | setSlot (id v) : StepsAlike k fit uses (setSlot id v) (setSlot id v)
  | newSlot (v) : StepsAlike k fit uses (newSlot v) (newSlot v)
  | isAlive (r) : StepsAlike k fit uses (isAlive r) (isAlive r)
  | isInstance (id) : StepsAlike k fit uses (isInstance id) (isInstance id)
  | resultSlot (id) : StepsAlike k fit uses (resultSlot id) (resultSlot id)
  | member? {n n'} (id) : k.names n n' → StepsAlike k fit uses (member? id n) (member? id n')
  | define {n n'} (id v) : k.names n n' →
    StepsAlike k fit uses (change (·.define id n v)) (change (·.define id n' v))
  | resolve {c l l' n n'} : fit c → k.locs l l' → k.names n n' →
    StepsAlike k fit uses (act l (Action.resolve c n)) (act l' (Action.resolve c n'))
  | lookup {c l l' n n'} (use) : fit c → k.locs l l' → k.names n n' →
    StepsAlike k fit uses (act l (Action.lookup use c n)) (act l' (Action.lookup use c n'))
  | assign {c l l' n n'} (v) : fit c → k.locs l l' → k.names n n' →
    StepsAlike k fit uses (act l (Action.assign c n v)) (act l' (Action.assign c n' v))
  | newInstance {d d' home} : ClassDecl.Alike k d d' → fit home →
    StepsAlike k fit uses (change (·.newInstance d home)) (change (·.newInstance d' home))
  | hoist {c b b'} : Block.Alike k b b' → fit c →
    StepsAlike k fit uses (modifyStore (b.hoist c)) (modifyStore (b'.hoist c))
  | call {home l l' routine} (args) : uses routine → fit home → k.locs l l' →
    StepsAlike k fit uses (routine.call l home args) (routine.call l' home args)

/-! ## simulations -/

/-- a runner that does nothing of its own about arguments -/
class Ordinary (m : Type → Type) [Runner m] : Prop where
  beside {α : Type} (e : Expr) (slot : SlotId) (x : m α) :
    Runner.beside e slot x = Runner.holding [.slot slot] x
  passing {α : Type} (f : FunctionId) (args : List Expr) (x : m α) : Runner.passing f args x = x

instance : Ordinary Eval := ⟨fun _ _ _ => rfl, fun _ _ _ => rfl⟩

/-- a comparison of two runners, step by step -/
structure Simulation (W : Type) [Preorder W] (m m' : Type → Type) [Runner m] [Runner m'] where
  like : Likeness
  /-- scopes that are fit to run code in -/
  scope : W → ScopeId → Prop
  scope_mono : ∀ {w w' c}, w ≤ w' → scope w c → scope w' c
  /-- routines of the host that scripts may call -/
  routine : Routine → Prop
  /-- computations that go alike from `w` on, with results related by `V` -/
  rel {α : Type} : W → (V : W → α → α → Prop) → m α → m' α → Prop
  pure : ∀ {α : Type} {w} {V : W → α → α → Prop} {a b : α}, V w a b → rel w V (pure a) (pure b)
  bind : ∀ {α β : Type} {w} {V : W → α → α → Prop} {U : W → β → β → Prop} {x : m α} {y : m' α}
    {f : α → m β} {g : α → m' β}, rel w V x y →
    (∀ w' a b, w ≤ w' → V w' a b → rel w' U (f a) (g b)) → rel w U (x >>= f) (y >>= g)
  holding : ∀ {α : Type} {w} {V : W → α → α → Prop} {x : m α} {y : m' α} (refs : List Ref),
    rel w V x y → rel w V (holding refs x) (holding refs y)
  start : ∀ {w c l l'}, scope w c → like.locs l l' → rel w (fun _ => Eq) (start c l) (start c l')
  fail : ∀ {α : Type} {w} {V : W → α → α → Prop} {l l' f f'}, like.locs l l' → f.Alike like f' →
    rel w V (step (fail l f)) (step (fail l' f'))
  /-- a name that is called and stands for nothing -/
  unknown : ∀ {w c l l' n n'}, scope w c → like.locs l l' → like.names n n' →
    rel w (fun _ => Eq)
      (do if ← isExplicit c then Eval.fail l (.undeclared n) else return .empty : m Value)
      (do if ← isExplicit c then Eval.fail l' (.undeclared n') else return .empty : m' Value)
  same : ∀ {α : Type} {w} {p p' : Eval α}, StepsAlike like (scope w) routine p p' →
    rel w (fun _ => Eq) (step p) (step p')
  findClass : ∀ {w c l l' n n'}, scope w c → like.locs l l' → like.names n n' →
    rel w (fun w => Option.Rel fun p p' => p.1.Alike like p'.1 ∧ p.2 = p'.2 ∧ scope w p.2)
      (step (act l (Action.ask fun s held => s.findClass held n c)))
      (step (act l' (Action.ask fun s held => s.findClass held n' c)))
  function : ∀ {w} (id : FunctionId),
    rel w (fun w f f' => f.Alike like f' ∧ scope w (homeOf f) ∧ f.Uses routine)
      (step (function id)) (step (function id))
  enter : ∀ {w d d' home} (args : List SlotId), FunctionDecl.Alike like d d' → scope w home →
    rel w (fun w c c' => c = c' ∧ scope w c) (step (enter d home args)) (step (enter d' home args))

namespace Simulation

variable {W : Type} [Preorder W] {m m' : Type → Type} [Runner m] [Runner m'] [Ordinary m]
  [Ordinary m'] (S : Simulation W m m') {w : W}

/-- equal results -/
abbrev equal {α : Type} : W → α → α → Prop := fun _ => Eq

/-- two ways to run a script function go alike -/
def Invokes (i : Invoke m) (i' : Invoke m') : Prop :=
  ∀ ⦃w d d' home l l'⦄ (args : List SlotId), FunctionDecl.Alike S.like d d' → S.scope w home →
    S.like.locs l l' → S.rel w equal (i d home args l) (i' d' home args l')

variable {i : Invoke m} {i' : Invoke m'} (hi : S.Invokes i i') {scope : ScopeId} {l l' : Location}
include hi

/-! ## calls and paths -/

theorem callIn {f f' : Function} (hf : f.Alike S.like f') (hhome : S.scope w (homeOf f))
    (huses : f.Uses S.routine) (hl : S.like.locs l l') (args : List SlotId) :
    S.rel w equal (callIn i f args l) (callIn i' f' args l') := by
  cases hf with
  | script hd =>
    have hlength := hd.params.length_eq
    simp only [Eval.callIn, ← hlength]
    split
    · exact hi args hd hhome hl
    · exact S.fail hl (.arityMismatch hd.name)
  | host _ =>
    refine S.bind (S.holding _ (S.same (.call args huses hhome hl))) ?_
    rintro w₁ v _ - rfl
    exact S.same (.newSlot v)

theorem call (hl : S.like.locs l l') (id : FunctionId) (args : List SlotId) :
    S.rel w equal (call i id args l) (call i' id args l') := by
  refine S.bind (S.function id) ?_
  rintro w₁ f f' - ⟨hf, hhome, huses⟩
  have hhomes : homeOf f' = homeOf f := by cases hf <;> rfl
  rw [hhomes]
  refine S.bind (S.holding _ (S.same (.isAlive _))) ?_
  rintro w₂ alive _ h₂ rfl
  cases alive with
  | true => exact S.callIn hi hf (S.scope_mono h₂ hhome) huses hl args
  | false => exact S.fail hl (.same _)

theorem implicitCall (hl : S.like.locs l l') (slot : SlotId) :
    S.rel w equal (implicitCall i l slot) (implicitCall i' l' slot) := by
  refine S.bind (S.same (.getSlot slot)) ?_
  rintro w₁ v _ - rfl
  cases v with
  | function id => exact S.holding _ (S.call hi hl id [])
  | _ => exact S.pure rfl

theorem objectIn (hl : S.like.locs l l') {ns ns' : List String}
    (hns : List.Forall₂ S.like.names ns ns') (slot : SlotId) :
    S.rel w equal (objectIn i l ns slot) (objectIn i' l' ns' slot) := by
  refine S.bind (S.implicitCall hi hl slot) ?_
  rintro w₁ slot _ - rfl
  refine S.bind (S.same (.getSlot slot)) ?_
  rintro w₂ v _ - rfl
  cases v with
  | object id => exact S.pure rfl
  | _ => exact S.fail hl (.notAnObject (S.like.names_dotted hns))

theorem selectMembers (hl : S.like.locs l l') {passed passed' : List String}
    (hpassed : List.Forall₂ S.like.names passed passed') (slot : SlotId) {ns ns' : List String}
    (hns : List.Forall₂ S.like.names ns ns') :
    S.rel w equal (selectMembers i l passed slot ns) (selectMembers i' l' passed' slot ns') := by
  induction hns generalizing w passed passed' slot with
  | nil => exact S.pure rfl
  | cons hn hns ih =>
    refine S.bind (S.objectIn hi hl hpassed slot) ?_
    rintro w₁ object _ - rfl
    refine S.bind (S.same (.member? object hn)) ?_
    rintro w₂ found _ - rfl
    cases found with
    | some slot => exact ih (List.rel_append hpassed (.cons hn .nil)) slot
    | none => exact S.fail hl (.unknownMember hn)

theorem resolvePath (hs : S.scope w scope) (hl : S.like.locs l l') {ns ns' : List String}
    (hns : List.Forall₂ S.like.names ns ns') :
    S.rel w equal (resolvePath i scope l ns) (resolvePath i' scope l' ns') := by
  cases hns with
  | nil => exact S.fail hl (.same _)
  | cons hn hns =>
    refine S.bind (S.same (.resolve hs hl hn)) ?_
    rintro w₁ slot _ - rfl
    exact S.selectMembers hi hl (.cons hn .nil) slot hns

theorem pathSlot (hs : S.scope w scope) (hl : S.like.locs l l') {ns ns' : List String}
    (hns : List.Forall₂ S.like.names ns ns') :
    S.rel w equal (pathSlot i scope l ns) (pathSlot i' scope l' ns') := by
  refine S.bind (S.resolvePath hi hs hl hns) ?_
  rintro w₁ slot _ - rfl
  exact S.implicitCall hi hl slot

/-! ## callees -/

theorem calleeValue (hs : S.scope w scope) {e e' : Expr} (he : e.Alike S.like e') {x : m Value}
    {y : m' Value} (hvalue : S.rel w equal x y) :
    S.rel w equal (calleeValue i scope x e) (calleeValue i' scope y e') := by
  cases he with
  | path hl hns =>
    cases hns with
    | nil =>
      refine S.bind (S.resolvePath hi hs hl .nil) ?_
      rintro w₁ slot _ - rfl
      exact S.same (.getSlot slot)
    | cons hn hns =>
      cases hns with
      | nil =>
        -- a name alone is looked up as a callee
        refine S.bind (S.same (.lookup .callee hs hl hn)) ?_
        rintro w₁ found _ hw rfl
        cases found with
        | some slot => exact S.same (.getSlot slot)
        | none => exact S.unknown (S.scope_mono hw hs) hl hn
      | cons hn' hns =>
        refine S.bind (S.resolvePath hi hs hl (.cons hn (.cons hn' hns))) ?_
        rintro w₁ slot _ - rfl
        exact S.same (.getSlot slot)
  | _ => exact hvalue

theorem callee (hs : S.scope w scope) {e e' : Expr} (he : e.Alike S.like e') {x : m Value}
    {y : m' Value} (hvalue : S.rel w equal x y) :
    S.rel w equal (callee i scope e x) (callee i' scope e' y) := by
  refine S.bind (S.calleeValue hi hs he hvalue) ?_
  rintro w₁ v _ - rfl
  cases v with
  | function id => exact S.pure rfl
  | _ => exact S.fail he.location (.notCallable he.source)

/-! ## instances -/

theorem initialise (hl : S.like.locs l l') (object : ObjectId) :
    S.rel w equal (initialise i l object) (initialise i' l' object) := by
  refine S.bind (S.same (.member? object (S.like.names_refl _))) ?_
  rintro w₁ found _ - rfl
  cases found with
  | none => exact S.pure rfl
  | some slot =>
    refine S.bind (S.same (.getSlot slot)) ?_
    rintro w₂ v _ - rfl
    cases v with
    | function id =>
      refine S.bind (S.call hi hl id []) ?_
      rintro w₃ _ _ - -
      exact S.pure rfl
    | _ => exact S.pure rfl

theorem instantiate (hs : S.scope w scope) (hl : S.like.locs l l') {n n' : String}
    (hn : S.like.names n n') :
    S.rel w equal (instantiate i scope l n) (instantiate i' scope l' n') := by
  refine S.bind (S.findClass hs hl hn) ?_
  rintro w₁ found found' - hfound
  cases hfound with
  | none => exact S.fail hl (.unknownClass hn)
  | @some p p' hp =>
    obtain ⟨d, home⟩ := p
    obtain ⟨d', home'⟩ := p'
    obtain ⟨hd, hhomes, hhome⟩ := hp
    obtain rfl : home = home' := hhomes
    refine S.bind (S.same (.newInstance hd hhome)) ?_
    rintro w₂ ⟨object, own⟩ _ - rfl
    refine S.bind (S.holding _ (S.initialise hi hl object)) ?_
    rintro w₃ _ _ - -
    exact S.pure rfl

/-! ## expressions -/

theorem argument (hs : S.scope w scope) {e e' : Expr} (he : e.Alike S.like e') {x : m Value}
    {y : m' Value} (hvalue : S.rel w equal x y) :
    S.rel w equal (argument i scope e x) (argument i' scope e' y) := by
  cases he with
  | path hl hns => exact S.pathSlot hi hs hl hns
  | _ =>
    refine S.bind hvalue ?_
    rintro w₁ v _ - rfl
    exact S.same (.newSlot v)

mutual
theorem eval {w : W} (hs : S.scope w scope) :
    ∀ {e e' : Expr}, e.Alike S.like e' → S.rel w equal (eval i scope e) (eval i' scope e')
  | _, _, .literal _ => S.pure rfl
  | _, _, .path hl hns => by
    refine S.bind (S.pathSlot hi hs hl hns) ?_
    rintro w₁ slot _ - rfl
    exact S.same (.getSlot slot)
  | _, _, .binary hl ha hb => by
    refine S.bind (eval hs ha) ?_
    rintro w₁ a _ h₁ rfl
    refine S.bind (S.holding _ (eval (S.scope_mono h₁ hs) hb)) ?_
    rintro w₂ b _ - rfl
    exact S.same (.check _ hl)
  | _, _, .unary hl ha => by
    refine S.bind (eval hs ha) ?_
    rintro w₁ a _ - rfl
    exact S.same (.check _ hl)
  | _, _, .call hl hf has => by
    refine S.bind (S.callee hi hs hf (eval hs hf)) ?_
    rintro w₁ f _ h₁ rfl
    refine S.bind (arguments (S.scope_mono h₁ hs) has) ?_
    rintro w₂ slots _ - rfl
    rw [Ordinary.passing, Ordinary.passing]
    refine S.bind (S.call hi hl f slots) ?_
    rintro w₃ slot _ - rfl
    exact S.same (.getSlot slot)
  | _, _, .new hl hc => S.instantiate hi hs hl hc
  | _, _, .paren _ ha => by
    rw [Eval.eval, Eval.eval]
    exact eval hs ha

theorem arguments {w : W} (hs : S.scope w scope) :
    ∀ {es es' : List Expr}, Expr.AllAlike S.like es es' →
      S.rel w equal (arguments i scope es) (arguments i' scope es')
  | _, _, .nil => S.pure rfl
  | _, _, .cons he hes => by
    refine S.bind (S.argument hi hs he (eval hs he)) ?_
    rintro w₁ slot _ h₁ rfl
    rw [Ordinary.beside, Ordinary.beside]
    refine S.bind (S.holding _ (arguments (S.scope_mono h₁ hs) hes)) ?_
    rintro w₂ slots _ - rfl
    exact S.pure rfl
end

theorem evalSlot (hs : S.scope w scope) {e e' : Expr} (he : e.Alike S.like e') :
    S.rel w equal (evalSlot i scope e) (evalSlot i' scope e') := by
  have hvalue := S.eval hi hs he
  cases he with
  | path hl hns => exact S.pathSlot hi hs hl hns
  | call hl hf has =>
    refine S.bind (S.callee hi hs hf (S.eval hi hs hf)) ?_
    rintro w₁ f _ h₁ rfl
    refine S.bind (S.arguments hi (S.scope_mono h₁ hs) has) ?_
    rintro w₂ slots _ - rfl
    rw [Ordinary.passing, Ordinary.passing]
    exact S.call hi hl f slots
  | _ =>
    refine S.bind hvalue ?_
    rintro w₁ v _ - rfl
    exact S.same (.newSlot v)

/-! ## assignment -/

theorem assignMember {t t' : Location} (ht : S.like.locs t t') (hl : S.like.locs l l')
    (object : ObjectId) {n n' : String} (hn : S.like.names n n') (v : Value) :
    S.rel w equal (assignMember i t l object n v) (assignMember i' t' l' object n' v) := by
  refine S.bind (S.same (.member? object hn)) ?_
  rintro w₁ found _ - rfl
  cases found with
  | some slot =>
    refine S.bind (S.same (.getSlot slot)) ?_
    rintro w₂ value _ - rfl
    cases value with
    | function id =>
      refine S.bind (S.same (.newSlot v)) ?_
      rintro w₃ arg _ - rfl
      refine S.bind (S.holding _ (S.call hi hl id [arg])) ?_
      rintro w₄ _ _ - -
      exact S.pure rfl
    | _ => exact S.same (.setSlot slot v)
  | none =>
    refine S.bind (S.same (.isInstance object)) ?_
    rintro w₂ inst _ - rfl
    cases inst with
    | true => exact S.fail ht (.unknownMember hn)
    | false =>
      refine S.bind (S.same (.define object v hn)) ?_
      rintro w₃ _ _ - -
      exact S.pure rfl

theorem assign (hs : S.scope w scope) (hl : S.like.locs l l') (v : Value) {e e' : Expr}
    (he : e.Alike S.like e') :
    S.rel w equal (assign i scope l v e) (assign i' scope l' v e') := by
  cases he with
  | path ht hns =>
    cases hns with
    | nil => exact S.fail hl (.same _)
    | cons hn hns =>
      cases hns with
      | nil => exact S.holding _ (S.same (.assign v hs ht hn))
      | cons hn' hns =>
        have hpath := List.Forall₂.cons hn (List.Forall₂.cons hn' hns)
        have howner := forall₂_dropLast hpath
        have hmember := forall₂_getLast (List.Forall₂.cons hn' hns) (by simp) (by simp)
        refine S.bind (S.holding _ (S.resolvePath hi hs ht howner)) ?_
        rintro w₁ slot _ - rfl
        refine S.bind (S.holding _ (S.objectIn hi ht howner slot)) ?_
        rintro w₂ object _ - rfl
        exact S.assignMember hi ht hl object hmember v
  | call _ hf has =>
    refine S.bind (S.holding _ (S.callee hi hs hf (S.eval hi hs hf))) ?_
    rintro w₁ f _ h₁ rfl
    refine S.bind (S.holding _ (S.arguments hi (S.scope_mono h₁ hs) has)) ?_
    rintro w₂ slots _ - rfl
    refine S.bind (S.same (.newSlot v)) ?_
    rintro w₃ last _ - rfl
    rw [Ordinary.passing, Ordinary.passing]
    refine S.bind (S.call hi hl f (slots ++ [last])) ?_
    rintro w₄ _ _ - -
    exact S.pure rfl
  | _ => exact S.fail hl (.same _)

/-! ## execution -/

mutual
theorem perform {w : W} (hs : S.scope w scope) :
    ∀ {s s' : Stmt}, s.Alike S.like s' → S.rel w equal (perform i scope s) (perform i' scope s')
  | _, _, .function _ => S.pure rfl
  | _, _, .class _ => S.pure rfl
  | _, _, .dim _ => S.pure rfl
  | _, _, .optionExplicit _ => S.pure rfl
  | _, _, .exit _ => S.pure rfl
  | _, _, .assign hl ht hv => by
    refine S.bind (S.eval hi hs hv) ?_
    rintro w₁ v _ h₁ rfl
    refine S.bind (S.assign hi (S.scope_mono h₁ hs) hl v ht) ?_
    rintro w₂ _ _ - -
    exact S.pure rfl
  | _, _, .cond _ hc ht he => by
    refine S.bind (S.eval hi hs hc) ?_
    rintro w₁ v _ h₁ rfl
    refine S.bind (S.same (.check _ hc.location)) ?_
    rintro w₂ taken _ h₂ rfl
    have hs₂ := S.scope_mono (h₁.trans h₂) hs
    cases taken with
    | true => exact execute hs₂ ht
    | false => exact execute hs₂ he
  | _, _, .expr _ he => by
    refine S.bind (S.evalSlot hi hs he) ?_
    rintro w₁ _ _ - -
    exact S.pure rfl

theorem executeAll {w : W} (hs : S.scope w scope) :
    ∀ {ss ss' : List Stmt}, Stmt.AllAlike S.like ss ss' →
      S.rel w equal (executeAll i scope ss) (executeAll i' scope ss')
  | _, _, .nil => S.pure rfl
  | _, _, .cons hstmt hss => by
    rw [Eval.executeAll, Eval.executeAll]
    refine S.bind (S.start hs hstmt.location) ?_
    rintro w₁ _ _ h₁ -
    have hs₁ := S.scope_mono h₁ hs
    refine S.bind (perform hs₁ hstmt) ?_
    rintro w₂ flow _ h₂ rfl
    cases flow with
    | normal => exact executeAll (S.scope_mono h₂ hs₁) hss
    | exit => exact S.pure rfl

theorem execute {w : W} (hs : S.scope w scope) :
    ∀ {b b' : Block}, b.Alike S.like b' → S.rel w equal (execute i scope b) (execute i' scope b')
  | _, _, .mk _ hss => executeAll hs hss
end

theorem runWith (hs : S.scope w scope) {b b' : Block} (hb : b.Alike S.like b') :
    S.rel w equal (runWith i scope b) (runWith i' scope b') := by
  refine S.bind (S.same (.hoist hb hs)) ?_
  rintro w₁ _ _ h₁ -
  refine S.bind (S.execute hi (S.scope_mono h₁ hs) hb) ?_
  rintro w₂ _ _ - -
  exact S.pure rfl

omit hi in
/-- two ways to run a script function that go alike still do with one more call in progress -/
theorem calls_succ {n n' : Nat} (hi : S.Invokes (calls n) (calls n')) :
    S.Invokes (calls (n + 1)) (calls (n' + 1)) := by
  intro w d d' home _ _ args hd hhome _
  refine S.bind (S.enter args hd hhome) ?_
  rintro w₁ scope _ - ⟨rfl, hscope⟩
  refine S.bind (S.holding _ (S.execute hi hscope hd.body)) ?_
  rintro w₂ _ _ - -
  exact S.same (.resultSlot scope)

end Simulation

end PageScript
