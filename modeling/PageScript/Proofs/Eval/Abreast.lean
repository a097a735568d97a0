import PageScript.Proofs.Eval.Discipline
import PageScript.Proofs.Eval.Guarded
import PageScript.Proofs.Store.Paired

/-!
# Copies of arguments

A guarded run of a program goes along with an ordinary run of the same program with parentheses
around some of the arguments that are picked.  Where the one passes the slot of a variable, the
other passes a copy.  They stay abreast: their stores are paired, and what is held on one side is
held on the other, or a copy of it is.  A pledge makes that last: as long as the slot keeps its
value, it holds what the copy holds.  In the end the function binds its parameter to a further copy
in either run.

* `Stage.Abreast`     what holds of the two runs at every moment;
* `Alongside`         computations that go along, from stages that are abreast to such stages;
* `alongside_eval`, `alongside_execute`, `alongside_runBlock`   with one lemma for every function of
                      the evaluator on the way.
-/

set_option linter.unusedSectionVars false

namespace PageScript

open Eval Runner

/-! ## two runs -/

/-- a fault at one place, which can quote an expression with parentheses around arguments -/
inductive RuntimeError.Copied (chosen : Location → Bool) : RuntimeError → RuntimeError → Prop
  | same (e) : Copied chosen e e
  | notCallable (l) (e : Expr) :
    Copied chosen ⟨l, .notCallable e.source⟩ ⟨l, .notCallable (e.copying chosen).source⟩

/-- machines with stores that are paired, after as many statements and the same writes -/
structure Machine.Paired (chosen : Location → Bool) (w : Pairing) (m m' : Machine) : Prop where
  store : m.store.Paired chosen w m'.store
  steps : m.steps = m'.steps
  output : m.output = m'.output

/-- what two runs are given -/
structure Terms where
  config : Config
  keepsOutput : Bool
  callbacks : Array Callback
  pick : Location → Bool
  pledges : List (SlotId × Value)
  held : List Ref
  held' : List Ref

namespace Terms

def warrant (c : Terms) : Warrant :=
  ⟨⟨c.config, c.held, c.keepsOutput, c.callbacks⟩, c.pick, c.pledges⟩

def env (c : Terms) : Env := ⟨c.config, c.held', c.keepsOutput, c.callbacks⟩

/-- with more that is held on both sides -/
def holding (c : Terms) (refs refs' : List Ref) : Terms :=
  { c with held := refs ++ c.held, held' := refs' ++ c.held' }

/-- with a further pledge -/
def pledging (c : Terms) (slot : SlotId) (v : Value) : Terms :=
  { c with pledges := (slot, v) :: c.pledges }

end Terms

/-- something that is held, and what is held for it: the same thing, a counterpart, or a copy of a
slot that is pledged to keep its value -/
inductive RefKept (w : Pairing) (pledges : List (SlotId × Value)) : Ref → Ref → Prop
  | scope (id) : RefKept w pledges (.scope id) (.scope id)
  | object (id) : RefKept w pledges (.object id) (.object id)
  | slot {i j} : w.Pairs i j → RefKept w pledges (.slot i) (.slot j)
  | copy {i j v} : (i, v) ∈ pledges → (j, v) ∈ w.copies → RefKept w pledges (.slot i) (.slot j)

theorem RefKept.mono {w w' : Pairing} {ps ps' : List (SlotId × Value)} {r r' : Ref}
    (h : RefKept w ps r r') (hw : w ≤ w') (hps : ps ⊆ ps') : RefKept w' ps' r r' := by
  cases h with
  | scope id => exact .scope id
  | object id => exact .object id
  | slot hij => exact .slot (hij.mono hw)
  | copy hi hj => exact .copy (hps hi) (hw.2 hj)

/-- the same things are held for an object in a value -/
theorem RefKept.refs (w : Pairing) (pledges : List (SlotId × Value)) (v : Value) :
    List.Forall₂ (RefKept w pledges) v.refs v.refs := by
  cases v with
  | object id => exact .cons (.object id) .nil
  | _ => exact .nil

/-- two runs at one moment -/
structure Stage where
  pairing : Pairing
  left : Machine
  right : Machine

/-- what holds of the two runs at every moment: only picked arguments have parentheses, every pledge
is kept, and the same is held -/
structure Stage.Abreast (chosen : Location → Bool) (c : Terms) (σ : Stage) : Prop where
  picked : ∀ l, chosen l = true → c.pick l = true
  machine : σ.left.Paired chosen σ.pairing σ.right
  kept : ∀ p ∈ c.pledges, σ.left.store.slot p.1 = p.2
  held : List.Forall₂ (RefKept σ.pairing c.pledges) c.held c.held'

section

variable {chosen : Location → Bool} {c : Terms} {σ : Stage}

namespace Stage.Abreast

variable (h : σ.Abreast chosen c)
include h

theorem store : σ.left.store.Paired chosen σ.pairing σ.right.store := h.machine.store

/-- what is held are the same things, or slots with the same values -/
theorem sameRef {r r' : Ref} (hr : RefKept σ.pairing c.pledges r r') :
    Store.SameRef σ.left.store σ.right.store r r' := by
  cases hr with
  | scope id => exact .scope id
  | object id => exact .object id
  | slot hij => exact .slot (h.store.slot_eq hij)
  | copy hi hj => exact .slot ((h.kept _ hi).trans (h.store.copy hj).2.2.symm)

theorem heldIn {refs refs' : List Ref}
    (hrefs : List.Forall₂ (Store.SameRef σ.left.store σ.right.store) refs refs') :
    List.Forall₂ (Store.SameRef σ.left.store σ.right.store)
      ((c.holding refs refs').warrant.env.heldIn σ.left)
      ((c.holding refs refs').env.heldIn σ.right) := by
  have hheld := List.rel_append hrefs (h.held.imp fun _ _ hr => h.sameRef hr)
  unfold Env.heldIn
  show List.Forall₂ _ (if c.keepsOutput then (refs ++ c.held) ++ _ else refs ++ c.held)
    (if c.keepsOutput then (refs' ++ c.held') ++ _ else refs' ++ c.held')
  split
  · rw [h.machine.output]
    refine List.rel_append hheld (List.forall₂_same.mpr fun r hr => ?_)
    obtain ⟨v, -, hv⟩ := List.mem_flatMap.mp hr
    cases v with
    | object id =>
      obtain rfl := List.mem_singleton.mp hv
      exact .object id
    | _ => exact nomatch hv
  · exact hheld

theorem within {c' : Terms} (hpledges : c.pledges ⊆ c'.pledges)
    (hkept : ∀ p ∈ c'.pledges, σ.left.store.slot p.1 = p.2) {refs refs' : List Ref}
    (hheld : c'.held = refs ++ c.held) (hheld' : c'.held' = refs' ++ c.held')
    (hpick : c'.pick = c.pick)
    (hrefs : List.Forall₂ (RefKept σ.pairing c'.pledges) refs refs') : σ.Abreast chosen c' where
  picked := hpick ▸ h.picked
  machine := h.machine
  kept := hkept
  held := by
    rw [hheld, hheld']
    exact List.rel_append hrefs (h.held.imp fun _ _ hr => hr.mono le_rfl hpledges)

end Stage.Abreast

/-! ## going along -/

variable {α β γ δ : Type}

/-- what two runs leave that go along: the guarded run is broken off, or both have a result, or both
have an error -/
inductive Goes (chosen : Location → Bool) (c : Terms) (w : Pairing) (V : Stage → α → β → Prop) :
    Except Breach α × Machine → Except RuntimeError β × Machine → Prop
  | broken {m o} : Goes chosen c w V (.error .broken, m) o
  | error {w' e e' m m'} : e.Copied chosen e' → m.Paired chosen w' m' →
    Goes chosen c w V (.error (.error e), m) (.error e', m')
  | ok {w' a b m m'} : w ≤ w' → Stage.Abreast chosen c ⟨w', m, m'⟩ → V ⟨w', m, m'⟩ a b →
    Goes chosen c w V (.ok a, m) (.ok b, m')

/-- a guarded and an ordinary computation that go along from a stage -/
def Alongside (chosen : Location → Bool) (c : Terms) (σ : Stage) (V : Stage → α → β → Prop)
    (x : Guarded α) (y : Eval β) : Prop :=
  Goes chosen c σ.pairing V (x.outcome c.warrant σ.left) (y.outcome c.env σ.right)

/-- the results are equal -/
abbrev Equal : Stage → α → α → Prop := fun _ a b => a = b

abbrev Counterparts : Stage → SlotId → SlotId → Prop := fun τ i j => τ.pairing.Pairs i j

variable {V : Stage → α → β → Prop} {U : Stage → γ → δ → Prop}

theorem Goes.imp {w : Pairing} {W : Stage → α → β → Prop} {o : Except Breach α × Machine}
    {o' : Except RuntimeError β × Machine} (h : Goes chosen c w V o o')
    (hVW : ∀ τ a b, V τ a b → W τ a b) : Goes chosen c w W o o' := by
  cases h with
  | broken => exact .broken
  | error he hm => exact .error he hm
  | ok hw h hab => exact .ok hw h (hVW _ _ _ hab)

/-- what comes of a part in which more is held and pledged; every pledge is kept -/
theorem Goes.leave {c' : Terms} (h : σ.Abreast chosen c) (hpledges : c.pledges ⊆ c'.pledges)
    {o : Except Breach α × Machine} {o' : Except RuntimeError β × Machine}
    (hgoes : Goes chosen c' σ.pairing V o o') :
    Goes chosen c σ.pairing
      (fun τ a b => V τ a b ∧ ∀ p ∈ c'.pledges, τ.left.store.slot p.1 = p.2) o o' := by
  cases hgoes with
  | broken => exact .broken
  | error he hm => exact .error he hm
  | ok hw h' hab =>
    refine .ok hw ⟨h.picked, h'.machine, fun p hp => h'.kept p (hpledges hp), ?_⟩ ⟨hab, h'.kept⟩
    exact h.held.imp fun _ _ hr => hr.mono hw (List.Subset.refl _)

namespace Alongside

theorem pure (h : σ.Abreast chosen c) {a : α} {b : β} (hab : V σ a b) :
    Alongside chosen c σ V (pure a) (pure b) :=
  .ok le_rfl h hab

theorem bind {x : Guarded α} {y : Eval β} {f : α → Guarded γ} {g : β → Eval δ}
    (hx : Alongside chosen c σ V x y)
    (hf : ∀ (τ : Stage) (a : α) (b : β), σ.pairing ≤ τ.pairing → τ.Abreast chosen c → V τ a b →
      Alongside chosen c τ U (f a) (g b)) :
    Alongside chosen c σ U (x >>= f) (y >>= g) := by
  unfold Alongside at hx ⊢
  rw [Guarded.outcome_bind, Eval.outcome_bind]
  generalize x.outcome c.warrant σ.left = o at hx ⊢
  generalize y.outcome c.env σ.right = o' at hx ⊢
  cases hx with
  | broken => exact .broken
  | error he hm => exact .error he hm
  | @ok w a b m m' hw h hab =>
    have hgoes : Goes chosen c w U _ _ := hf ⟨w, m, m'⟩ a b hw h hab
    dsimp only at hgoes ⊢
    generalize (f a).outcome c.warrant m = o at hgoes ⊢
    generalize (g b).outcome c.env m' = o' at hgoes ⊢
    cases hgoes with
    | broken => exact .broken
    | error he hm => exact .error he hm
    | ok hw' h' hab' => exact .ok (hw.trans hw') h' hab'

theorem holding {x : Guarded α} {y : Eval β} (h : σ.Abreast chosen c) {refs refs' : List Ref}
    (hrefs : List.Forall₂ (RefKept σ.pairing c.pledges) refs refs')
    (hx : σ.Abreast chosen (c.holding refs refs') →
      Alongside chosen (c.holding refs refs') σ V x y) :
    Alongside chosen c σ V (Runner.holding refs x) (Runner.holding refs' y) := by
  have hpledges : c.pledges ⊆ (c.holding refs refs').pledges := List.Subset.refl _
  have hwithin := h.within hpledges h.kept rfl rfl rfl hrefs
  exact (Goes.leave h hpledges (hx hwithin)).imp fun _ _ _ hab => hab.1

/-- while a slot is held, and for it the same or a copy, and it is pledged to keep its value -/
theorem pledging {x : Guarded α} {y : Eval β} (h : σ.Abreast chosen c) {i j : SlotId} {v : Value}
    (hi : σ.left.store.slot i = v)
    (hij : σ.pairing.Pairs i j ∨ (j, v) ∈ σ.pairing.copies)
    (hx : σ.Abreast chosen ((c.pledging i v).holding [.slot i] [.slot j]) →
      Alongside chosen ((c.pledging i v).holding [.slot i] [.slot j]) σ V x y) :
    Alongside chosen c σ (fun τ a b => V τ a b ∧ τ.left.store.slot i = v)
      (Guarded.pledging i (Runner.holding [.slot i] x)) (Runner.holding [.slot j] y) := by
  have hpledges : c.pledges ⊆ ((c.pledging i v).holding [.slot i] [.slot j]).pledges :=
    List.subset_cons_self _ _
  have hkept : ∀ p ∈ (i, v) :: c.pledges, σ.left.store.slot p.1 = p.2 :=
    List.forall_mem_cons.mpr ⟨hi, h.kept⟩
  have href : RefKept σ.pairing ((i, v) :: c.pledges) (.slot i) (.slot j) := by
    rcases hij with hij | hj
    · exact .slot hij
    · exact .copy List.mem_cons_self hj
  have hwithin := h.within hpledges hkept rfl rfl rfl (.cons href .nil)
  have hleft := Goes.leave h hpledges (hx hwithin)
  subst hi
  exact hleft.imp fun _ _ _ hab => ⟨hab.1, hab.2 _ List.mem_cons_self⟩

end Alongside

/-! ## steps -/

/-- what two steps leave: results or errors, and machines that are paired -/
inductive Stepped (chosen : Location → Bool) (w : Pairing) (V : Stage → α → β → Prop) :
    Except RuntimeError α × Machine → Except RuntimeError β × Machine → Prop
  | ok {w' a b m m'} : w ≤ w' → m.Paired chosen w' m' → V ⟨w', m, m'⟩ a b →
    Stepped chosen w V (.ok a, m) (.ok b, m')
  | error {w' e e' m m'} : e.Copied chosen e' → m.Paired chosen w' m' →
    Stepped chosen w V (.error e, m) (.error e', m')

theorem Stepped.goes {o : Except RuntimeError α × Machine} {o' : Except RuntimeError β × Machine}
    (hs : Stepped chosen σ.pairing V o o') (h : σ.Abreast chosen c) :
    Goes chosen c σ.pairing V (Guarded.guard c.pledges o) o' := by
  cases hs with
  | error he hm => exact .error he hm
  | @ok w' a b m m' hw hm hab =>
    by_cases hkept : ∀ p ∈ c.pledges, m.store.slot p.1 = p.2
    · have hguard : Guarded.guard c.pledges (.ok a, m) = (.ok a, m) := by
        simp only [Guarded.guard, List.all_eq_true, decide_eq_true_eq]
        exact if_pos hkept
      rw [hguard]
      refine .ok hw ⟨h.picked, hm, hkept, ?_⟩ hab
      exact h.held.imp fun _ _ hr => hr.mono hw (List.Subset.refl _)
    · have hguard : Guarded.guard c.pledges (.ok a, m) = (.error .broken, m) := by
        simp only [Guarded.guard, List.all_eq_true, decide_eq_true_eq]
        exact if_neg hkept
      rw [hguard]
      exact .broken

/-- what two changes of the store leave: results or one fault, and stores that are paired -/
inductive Acted (chosen : Location → Bool) (w : Pairing) (R : Pairing → α → β → Prop) :
    Except RuntimeFault α × Store → Except RuntimeFault β × Store → Prop
  | ok {w' a b s s'} : w ≤ w' → s.Paired chosen w' s' → R w' a b →
    Acted chosen w R (.ok a, s) (.ok b, s')
  | error {f s s'} : s.Paired chosen w s' → Acted chosen w R (.error f, s) (.error f, s')

section

variable {s s' : Store} {w : Pairing} {held held' : List Ref}
  (h : s.Paired chosen w s') (hheld : List.Forall₂ (Store.SameRef s s') held held')
include h hheld

theorem acted_lookup (use : Use) (id : ScopeId) (n : String) :
    Acted chosen w (fun w => Option.Rel w.Pairs) ((Action.lookup use id n).outcome held s)
      ((Action.lookup use id n).outcome held' s') := by
  have hfound := h.find hheld use n id
  rw [Action.outcome_lookup, Action.outcome_lookup]
  generalize s.find held use n id = found at hfound ⊢
  generalize s'.find held' use n id = found' at hfound ⊢
  cases hfound with
  | error hf =>
    obtain rfl := hf
    exact .error h
  | ok hfound =>
    cases hfound with
    | none => exact .ok le_rfl h .none
    | some hfound =>
      cases hfound with
      | slot hij => exact .ok le_rfl h (.some hij)
      | owner o => exact .ok (w.le_push _) (h.newSlot (.object o)) (.some h.pairs_new)

theorem acted_resolve (id : ScopeId) (n : String) :
    Acted chosen w Pairing.Pairs ((Action.resolve id n).outcome held s)
      ((Action.resolve id n).outcome held' s') := by
  have hfound := h.find hheld .variable n id
  rw [Action.outcome_resolve, Action.outcome_resolve, (h.scope id).isExplicit]
  generalize s.find held .variable n id = found at hfound ⊢
  generalize s'.find held' .variable n id = found' at hfound ⊢
  cases hfound with
  | error hf =>
    obtain rfl := hf
    exact .error h
  | ok hfound =>
    cases hfound with
    | none =>
      dsimp only
      split
      · exact .error h
      · exact .ok (w.le_push _) (h.declare id n .empty) h.pairs_new
    | some hfound =>
      cases hfound with
      | slot hij => exact .ok le_rfl h hij
      | owner o => exact .ok (w.le_push _) (h.newSlot (.object o)) h.pairs_new

theorem acted_assign (id : ScopeId) (n : String) (v : Value) :
    Acted chosen w (fun _ => Eq) ((Action.assign id n v).outcome held s)
      ((Action.assign id n v).outcome held' s') := by
  have hresolve := acted_resolve h hheld id n
  rw [Action.outcome_assign, Action.outcome_assign]
  generalize (Action.resolve id n).outcome held s = o at hresolve ⊢
  generalize (Action.resolve id n).outcome held' s' = o' at hresolve ⊢
  cases hresolve with
  | error hs => exact .error hs
  | ok hw hs hij => exact .ok hw (hs.setSlot hij v) rfl

theorem acted_findClass (id : ScopeId) (n : String) :
    Acted chosen w (fun _ => Option.Rel fun p p' => p'.1 = p.1.copying chosen ∧ p.2 = p'.2)
      ((Action.ask fun s held => s.findClass held n id).outcome held s)
      ((Action.ask fun s held => s.findClass held n id).outcome held' s') := by
  have hfound := h.findClass hheld n id
  rw [Action.outcome_ask, Action.outcome_ask]
  generalize s.findClass held n id = found at hfound ⊢
  generalize s'.findClass held' n id = found' at hfound ⊢
  cases hfound with
  | error hf =>
    obtain rfl := hf
    exact .error h
  | ok hfound => exact .ok le_rfl h hfound

end

namespace Alongside

variable (h : σ.Abreast chosen c)
include h

theorem step {p : Eval α} {q : Eval β}
    (hs : Stepped chosen σ.pairing V (p.outcome c.warrant.env σ.left) (q.outcome c.env σ.right)) :
    Alongside chosen c σ V (Runner.step p) (Runner.step q) :=
  hs.goes h

theorem act {R : Pairing → α → β → Prop} {x : Action α} {y : Action β}
    (hx : ∀ {held held'},
      List.Forall₂ (Store.SameRef σ.left.store σ.right.store) held held' →
        Acted chosen σ.pairing R (x.outcome held σ.left.store) (y.outcome held' σ.right.store))
    (l : Location) :
    Alongside chosen c σ (fun τ => R τ.pairing) (Runner.step (Eval.act l x))
      (Runner.step (Eval.act l y)) := by
  refine step h ?_
  have hacted : Acted chosen σ.pairing R
      (x.outcome (c.warrant.env.heldIn σ.left) σ.left.store)
      (y.outcome (c.env.heldIn σ.right) σ.right.store) := hx (h.heldIn .nil)
  rw [outcome_act, outcome_act]
  generalize x.outcome _ σ.left.store = o at hacted ⊢
  generalize y.outcome _ σ.right.store = o' at hacted ⊢
  cases hacted with
  | ok hw hs hab => exact .ok hw { h.machine with store := hs } hab
  | error hs => exact .error (.same _) { h.machine with store := hs }

theorem reading {f : Store → α} {g : Store → β} (hfg : V σ (f σ.left.store) (g σ.right.store)) :
    Alongside chosen c σ V (Runner.step (do return f (← Eval.store)))
      (Runner.step (do return g (← Eval.store))) :=
  step h (.ok le_rfl h.machine hfg)

theorem change {R : Pairing → α → β → Prop} {f : Store → α × Store} {g : Store → β × Store}
    {w : Pairing} (hw : σ.pairing ≤ w)
    (hstore : (f σ.left.store).2.Paired chosen w (g σ.right.store).2)
    (hresult : R w (f σ.left.store).1 (g σ.right.store).1) :
    Alongside chosen c σ (fun τ => R τ.pairing) (Runner.step (Eval.change f))
      (Runner.step (Eval.change g)) :=
  step h (.ok hw { h.machine with store := hstore } hresult)

theorem modifyStore {f g : Store → Store}
    (hstore : Store.PairedFrom chosen σ.pairing (f σ.left.store) (g σ.right.store)) :
    Alongside chosen c σ Equal (Runner.step (Eval.modifyStore f))
      (Runner.step (Eval.modifyStore g)) := by
  obtain ⟨w, hw, hs⟩ := hstore
  exact step h (.ok hw { h.machine with store := hs } rfl)

theorem fail (l : Location) (f : RuntimeFault) :
    Alongside chosen c σ V (Runner.step (Eval.fail l f)) (Runner.step (Eval.fail l f)) :=
  step h (.error (.same _) h.machine)

theorem check (l : Location) (r : Except RuntimeFault α) :
    Alongside chosen c σ Equal (Runner.step (Eval.check l r)) (Runner.step (Eval.check l r)) := by
  cases r with
  | ok a => exact step h (.ok le_rfl h.machine rfl)
  | error f => exact fail h l f

theorem getSlot {i j : SlotId} (hij : σ.pairing.Pairs i j) :
    Alongside chosen c σ Equal (Runner.step (Eval.getSlot i)) (Runner.step (Eval.getSlot j)) :=
  reading h (h.store.slot_eq hij)

theorem peek {i j : SlotId} (hij : σ.pairing.Pairs i j) :
    Alongside chosen c σ (fun τ a b => τ = σ ∧ a = b) (Runner.step (Eval.getSlot i))
      (Runner.step (Eval.getSlot j)) :=
  reading h ⟨rfl, h.store.slot_eq hij⟩

theorem member? (object : ObjectId) (n : String) :
    Alongside chosen c σ (fun τ => Option.Rel τ.pairing.Pairs)
      (Runner.step (Eval.member? object n)) (Runner.step (Eval.member? object n)) :=
  reading h (h.store.field? object n)

theorem newSlot (v : Value) :
    Alongside chosen c σ Counterparts (Runner.step (Eval.newSlot v))
      (Runner.step (Eval.newSlot v)) :=
  change (R := Pairing.Pairs) h (σ.pairing.le_push _) (h.store.newSlot v) h.store.pairs_new

theorem setSlot {i j : SlotId} (hij : σ.pairing.Pairs i j) (v : Value) :
    Alongside chosen c σ Equal (Runner.step (Eval.setSlot i v)) (Runner.step (Eval.setSlot j v)) :=
  modifyStore h (.refl (h.store.setSlot hij v))

theorem start (scope : ScopeId) (l : Location) :
    Alongside chosen c σ Equal (Runner.start scope l) (Runner.start scope l) := by
  refine step h ?_
  rw [outcome_countStep, outcome_countStep, ← h.machine.steps]
  have hcounted : Machine.Paired chosen σ.pairing { σ.left with steps := σ.left.steps + 1 }
      { σ.right with steps := σ.left.steps + 1 } := { h.machine with steps := rfl }
  show Stepped _ _ _ (c.config.budgetAt l _, _) (c.config.budgetAt l _, _)
  cases c.config.budgetAt l (σ.left.steps + 1) with
  | ok _ => exact .ok le_rfl hcounted rfl
  | error e => exact .error (.same e) hcounted

end Alongside

/-! ## calls -/

/-- what is passed suits a function: counterparts where it binds a parameter to the slot itself, and
everywhere in a call of a routine -/
def Function.Accepts (byRef : Bool) (σ : Stage) (args args' : List SlotId) : Function → Prop
  | .script decl _ =>
    Store.Passes byRef σ.pairing σ.left.store σ.right.store decl.params args args'
  | .host .. => List.Forall₂ σ.pairing.Pairs args args'

/-- two ways to run a script function that go along -/
def InvokesAlongside (chosen : Location → Bool) (i : Invoke Guarded) (i' : Invoke Eval) : Prop :=
  ∀ ⦃c σ⦄ (d : FunctionDecl) (home : ScopeId) ⦃args args'⦄ (l : Location),
    σ.Abreast chosen c →
    Store.Passes c.config.byRef σ.pairing σ.left.store σ.right.store d.params args args' →
    Alongside chosen c σ Counterparts (i d home args l) (i' (d.copying chosen) home args' l)

/-- counterparts suit every function -/
theorem Stage.Abreast.accepts (h : σ.Abreast chosen c) {args args' : List SlotId}
    (hargs : List.Forall₂ σ.pairing.Pairs args args') (f : Function) :
    f.Accepts c.config.byRef σ args args' := by
  cases f with
  | host _ _ _ => exact hargs
  | script d _ =>
    refine ⟨hargs.imp fun _ _ hij => h.store.given hij, fun x hx _ => ?_⟩
    exact (List.forall₂_iff_zip.mp hargs).2 (List.of_mem_zip (a := x.1) (b := x.2) hx).2

theorem Function.Accepts.given {f : Function} (h : σ.Abreast chosen c) {byRef : Bool}
    {args args' : List SlotId} (hf : f.Accepts byRef σ args args') :
    List.Forall₂ (Store.Given σ.left.store σ.right.store) args args' := by
  cases f with
  | script _ _ => exact Store.Passes.given hf
  | host _ _ _ => exact List.Forall₂.imp (fun _ _ hij => h.store.given hij) hf

theorem alongside_write (h : σ.Abreast chosen c) {args args' : List SlotId}
    (hargs : List.Forall₂ σ.pairing.Pairs args args') (home : ScopeId) (l : Location) :
    Alongside chosen c σ Equal (Runner.step (Routine.write.call l home args))
      (Runner.step (Routine.write.call l home args')) := by
  cases hargs with
  | nil => exact .fail h l _
  | @cons i j is js hij hargs =>
    cases hargs with
    | nil =>
      refine .step h (.ok le_rfl { h.machine with output := ?_ } rfl)
      show σ.left.output.push (σ.left.store.slot i) = σ.right.output.push (σ.right.store.slot j)
      rw [h.machine.output, h.store.slot_eq hij]
    | @cons _ _ is js _ hargs =>
      refine .step h ?_
      show Stepped _ _ _ (.error ⟨l, .host _⟩, _) (.error ⟨l, .host _⟩, _)
      rw [List.length_cons, List.length_cons, List.length_cons, List.length_cons, hargs.length_eq]
      exact .error (.same _) h.machine

theorem alongside_isAlive (h : σ.Abreast chosen c) {args args' : List SlotId}
    (hargs : List.Forall₂ (Store.Given σ.left.store σ.right.store) args args') {r : Ref}
    (hr : Store.NoSlot r) :
    Alongside chosen c σ (fun τ a b => τ = σ ∧ a = b)
      (Runner.holding (args.map .slot) (Runner.step (Eval.isAlive r)))
      (Runner.holding (args'.map .slot) (Runner.step (Eval.isAlive r))) := by
  have hargs : List.Forall₂ (Store.SameRef σ.left.store σ.right.store) (args.map .slot)
      (args'.map .slot) := by
    rw [List.forall₂_map_left_iff, List.forall₂_map_right_iff]
    exact hargs.imp fun _ _ hij => .slot hij.slot_eq
  have halive := h.store.alive (h.heldIn hargs) hr
  show Goes chosen c σ.pairing _ (Guarded.guard c.pledges ((Eval.isAlive r).outcome _ σ.left))
    ((Eval.isAlive r).outcome _ σ.right)
  refine Stepped.goes ?_ h
  rw [outcome_isAlive, outcome_isAlive]
  exact .ok le_rfl h.machine ⟨rfl, halive⟩

section

variable {i : Invoke Guarded} {i' : Invoke Eval} (hi : InvokesAlongside chosen i i')
  (h : σ.Abreast chosen c)
include hi h

theorem alongside_callIn {f : Function} {args args' : List SlotId}
    (hf : f.Accepts c.config.byRef σ args args') (huses : f.Uses (· = .write)) (l : Location) :
    Alongside chosen c σ Counterparts (callIn i f args l)
      (callIn i' (f.copying chosen) args' l) := by
  cases f with
  | script d home =>
    have hlength := (Function.Accepts.given h hf).length_eq
    simp only [callIn, Function.copying, FunctionDecl.params_copying, FunctionDecl.name_copying,
      ← hlength]
    split
    · exact hi d home l h hf
    · exact .fail h _ _
  | host name home routine =>
    obtain rfl : routine = .write := huses
    have hargs : List.Forall₂ σ.pairing.Pairs args args' := hf
    have hrefs : List.Forall₂ (RefKept σ.pairing c.pledges) (.scope home :: args.map .slot)
        (.scope home :: args'.map .slot) := by
      refine .cons (.scope home) ?_
      rw [List.forall₂_map_left_iff, List.forall₂_map_right_iff]
      exact hargs.imp fun _ _ hij => .slot hij
    refine (Alongside.holding h hrefs fun h => alongside_write h hargs home l).bind ?_
    rintro τ v _ - h rfl
    exact .newSlot h v

theorem alongside_call {id : FunctionId} {args args' : List SlotId}
    (hf : (σ.left.store.function id).Accepts c.config.byRef σ args args') (l : Location) :
    Alongside chosen c σ Counterparts (Eval.call i id args l) (Eval.call i' id args' l) := by
  have hfunction : Alongside chosen c σ
      (fun τ f f' => τ = σ ∧ f = σ.left.store.function id ∧ f' = f.copying chosen)
      (Runner.step (Eval.function id)) (Runner.step (Eval.function id)) :=
    .reading h ⟨rfl, rfl, h.store.function id⟩
  refine hfunction.bind ?_
  rintro τ _ _ - - ⟨rfl, rfl, rfl⟩
  have hhome : homeOf ((τ.left.store.function id).copying chosen)
      = homeOf (τ.left.store.function id) := by
    cases τ.left.store.function id <;> rfl
  rw [hhome]
  -- the pledges have ended here, but nothing has run since: the slots still hold the same values
  refine (alongside_isAlive h (hf.given h) (r := .scope _) trivial).bind ?_
  rintro _ alive _ - - ⟨rfl, rfl⟩
  cases alive with
  | true => exact alongside_callIn hi h hf (h.store.routine id) l
  | false => exact .fail h l _

theorem alongside_callWith {args args' : List SlotId}
    (hargs : List.Forall₂ σ.pairing.Pairs args args') (id : FunctionId) (l : Location) :
    Alongside chosen c σ Counterparts (Eval.call i id args l) (Eval.call i' id args' l) :=
  alongside_call hi h (h.accepts hargs _) l

/-! ## paths -/

theorem alongside_implicitCall {k k' : SlotId} (hk : σ.pairing.Pairs k k') (l : Location) :
    Alongside chosen c σ Counterparts (implicitCall i l k) (implicitCall i' l k') := by
  refine (Alongside.peek h hk).bind ?_
  rintro τ v _ - h ⟨rfl, rfl⟩
  cases v with
  | function id =>
    exact .holding h (.cons (.slot hk) .nil) fun h => alongside_callWith hi h .nil id l
  | _ => exact .pure h hk

theorem alongside_objectIn {k k' : SlotId} (hk : σ.pairing.Pairs k k') (l : Location)
    (names : List String) :
    Alongside chosen c σ Equal (objectIn i l names k) (objectIn i' l names k') := by
  refine (alongside_implicitCall hi h hk l).bind ?_
  rintro τ j j' - h hj
  refine (Alongside.getSlot h hj).bind ?_
  rintro τ v _ - h rfl
  cases v with
  | object id => exact .pure h rfl
  | _ => exact .fail h l _

omit h in
theorem alongside_selectMembers (l : Location) {names : List String} :
    ∀ {c : Terms} {σ : Stage} {k k' : SlotId} (passed : List String), σ.Abreast chosen c →
      σ.pairing.Pairs k k' →
        Alongside chosen c σ Counterparts (selectMembers i l passed k names)
          (selectMembers i' l passed k' names) := by
  induction names with
  | nil => exact fun _ h hk => .pure h hk
  | cons n names ih =>
    intro c σ k k' passed h hk
    refine (alongside_objectIn hi h hk l passed).bind ?_
    rintro τ object _ - h rfl
    refine (Alongside.member? h object n).bind ?_
    rintro τ found found' - h hfound
    cases hfound with
    | some hj => exact ih _ h hj
    | none => exact .fail h l _

theorem alongside_resolvePath (scope : ScopeId) (l : Location) (names : List String) :
    Alongside chosen c σ Counterparts (resolvePath i scope l names)
      (resolvePath i' scope l names) := by
  cases names with
  | nil => exact .fail h l _
  | cons n names =>
    refine (Alongside.act h (fun hheld => acted_resolve h.store hheld scope n) l).bind ?_
    rintro τ k k' - h hk
    exact alongside_selectMembers hi l _ h hk

theorem alongside_pathSlot (scope : ScopeId) (l : Location) (names : List String) :
    Alongside chosen c σ Counterparts (pathSlot i scope l names) (pathSlot i' scope l names) := by
  refine (alongside_resolvePath hi h scope l names).bind ?_
  rintro τ k k' - h hk
  exact alongside_implicitCall hi h hk l

/-! ## callees -/

theorem alongside_calleeValue (scope : ScopeId) (e : Expr) {x : Guarded Value} {y : Eval Value}
    (hvalue : Alongside chosen c σ Equal x y) :
    Alongside chosen c σ Equal (calleeValue i scope x e)
      (calleeValue i' scope y (e.copying chosen)) := by
  cases e with
  | path l names =>
    match names with
    | [n] =>
      -- a name alone is looked up as a callee
      refine (Alongside.act h (fun hheld => acted_lookup h.store hheld .callee scope n) l).bind ?_
      rintro τ found found' - h hfound
      cases hfound with
      | some hk => exact .getSlot h hk
      | none =>
        have hexplicit : Alongside chosen c τ Equal (Runner.step (Eval.isExplicit scope))
            (Runner.step (Eval.isExplicit scope)) := .reading h (h.store.scope scope).isExplicit
        refine hexplicit.bind ?_
        rintro τ explicit _ - h rfl
        cases explicit with
        | true => exact .fail h l _
        | false => exact .pure h rfl
    | [] =>
      refine (alongside_resolvePath hi h scope l []).bind ?_
      rintro τ k k' - h hk
      exact .getSlot h hk
    | n :: n' :: names =>
      refine (alongside_resolvePath hi h scope l (n :: n' :: names)).bind ?_
      rintro τ k k' - h hk
      exact .getSlot h hk
  | _ => exact hvalue

theorem alongside_callee (scope : ScopeId) (e : Expr) {x : Guarded Value} {y : Eval Value}
    (hvalue : Alongside chosen c σ Equal x y) :
    Alongside chosen c σ Equal (callee i scope e x) (callee i' scope (e.copying chosen) y) := by
  refine (alongside_calleeValue hi h scope e hvalue).bind ?_
  rintro τ v _ - h rfl
  cases v with
  | function id => exact .pure h rfl
  | _ =>
    refine .step h (.error ?_ h.machine)
    rw [Expr.location_copying]
    exact .notCallable _ e

/-! ## instances -/

theorem alongside_initialise (l : Location) (object : ObjectId) :
    Alongside chosen c σ Equal (initialise i l object) (initialise i' l object) := by
  refine (Alongside.member? h object "class_initialize").bind ?_
  rintro τ found found' - h hfound
  cases hfound with
  | none => exact .pure h rfl
  | some hk =>
    refine (Alongside.getSlot h hk).bind ?_
    rintro τ v _ - h rfl
    cases v with
    | function id =>
      refine (alongside_callWith hi h .nil id l).bind ?_
      rintro τ _ _ - h -
      exact .pure h rfl
    | _ => exact .pure h rfl

theorem alongside_instantiate (scope : ScopeId) (l : Location) (n : String) :
    Alongside chosen c σ Equal (instantiate i scope l n) (instantiate i' scope l n) := by
  refine (Alongside.act h (fun hheld => acted_findClass h.store hheld scope n) l).bind ?_
  rintro τ found found' - h hfound
  cases hfound with
  | none => exact .fail h l _
  | @some p p' hp =>
    obtain ⟨d, home⟩ := p
    obtain ⟨_, _⟩ := p'
    obtain ⟨rfl, rfl⟩ := hp
    obtain ⟨heq, w, hw, hs⟩ := h.store.newInstance d home
    refine (Alongside.change (R := fun _ => Eq) (f := (·.newInstance d home))
      (g := (·.newInstance (d.copying chosen) home)) h hw hs heq).bind ?_
    rintro τ ⟨object, own⟩ _ - h rfl
    have hrefs : List.Forall₂ (RefKept τ.pairing c.pledges)
        [.scope home, .scope own, .object object] [.scope home, .scope own, .object object] :=
      .cons (.scope _) (.cons (.scope _) (.cons (.object _) .nil))
    refine (Alongside.holding h hrefs fun h => alongside_initialise hi h l object).bind ?_
    rintro τ _ _ - h -
    exact .pure h rfl

/-! ## arguments -/

theorem alongside_argument (scope : ScopeId) (e : Expr) {x : Guarded Value} {y : Eval Value}
    (hvalue : Alongside chosen c σ Equal x y) :
    Alongside chosen c σ Counterparts (argument i scope e x)
      (argument i' scope (e.copying chosen) y) := by
  cases e with
  | path l names => exact alongside_pathSlot hi h scope l names
  | _ =>
    refine hvalue.bind ?_
    rintro τ v _ - h rfl
    exact .newSlot h v

end

/-- what is passed for a slot: its counterpart, or a copy of it if the argument is picked -/
structure Gives (σ : Stage) (isPicked : Bool) (k j : SlotId) : Prop where
  present : ∃ k', σ.pairing.Pairs k k'
  slot : σ.pairing.Pairs k j ∨ (isPicked = true ∧ (j, σ.left.store.slot k) ∈ σ.pairing.copies)

theorem Gives.of_pairs {k j : SlotId} (hk : σ.pairing.Pairs k j) (b : Bool) : Gives σ b k j :=
  ⟨⟨j, hk⟩, .inl hk⟩

/-- what is passed in a call; behind the arguments there can be slots that are no arguments -/
inductive GivesAll (σ : Stage) : List Bool → List SlotId → List SlotId → Prop
  | rest {ks js} : List.Forall₂ σ.pairing.Pairs ks js → GivesAll σ [] ks js
  | cons {b bs k ks j js} : Gives σ b k j → GivesAll σ bs ks js →
    GivesAll σ (b :: bs) (k :: ks) (j :: js)

/-- a copy of the slot that is passed -/
theorem Alongside.copied {x : Guarded SlotId} {y : Eval SlotId}
    (hx : Alongside chosen c σ Counterparts x y) :
    Alongside chosen c σ (fun τ => Gives τ true) x
      (do Eval.newSlot (← (do Eval.getSlot (← y)))) := by
  unfold Alongside at hx ⊢
  rw [Eval.outcome_bind, Eval.outcome_bind]
  generalize x.outcome c.warrant σ.left = o at hx ⊢
  generalize y.outcome c.env σ.right = o' at hx ⊢
  cases hx with
  | broken => exact .broken
  | error he hm => exact .error he hm
  | @ok w k j m m' hw h hk =>
    show Goes _ _ _ _ (.ok k, m) (.ok (⟨m'.store.slots.size⟩ : SlotId),
      { m' with store := (m'.store.newSlot (m'.store.slot j)).2 })
    rw [← h.store.slot_eq hk]
    have hgrown := w.le_addCopy ⟨m'.store.slots.size⟩ (m.store.slot k)
    have hcopied : m.Paired chosen _ { m' with store := (m'.store.newSlot _).2 } :=
      { h.machine with store := h.store.newCopy (m.store.slot k) }
    refine .ok (hw.trans hgrown) (Stage.Abreast.mk h.picked hcopied h.kept ?_) ?_
    · exact h.held.imp fun _ _ hr => hr.mono hgrown (List.Subset.refl _)
    · exact ⟨⟨j, hk.mono hgrown⟩, .inr ⟨rfl, List.mem_cons_self⟩⟩

theorem Gives.pairs {b : Bool} {k j : SlotId} (hk : Gives σ b k j) (hpick : b = false) :
    σ.pairing.Pairs k j :=
  hk.slot.resolve_right fun hcopy => Bool.false_ne_true (hpick.symm.trans hcopy.1)

theorem Gives.given {b : Bool} {k j : SlotId} (hk : Gives σ b k j) (h : σ.Abreast chosen c) :
    Store.Given σ.left.store σ.right.store k j := by
  obtain ⟨⟨k', hk⟩, hj | ⟨-, hj⟩⟩ := hk
  · exact h.store.given hj
  · obtain ⟨-, hlt, hslot⟩ := h.store.copy hj
    exact ⟨(h.store.given hk).lt, hlt, hslot.symm⟩

/-- as long as a slot keeps its value, it goes with what is passed for it -/
theorem Gives.later {b : Bool} {k j : SlotId} (hk : Gives σ b k j) {ρ : Stage}
    (hρ : σ.pairing ≤ ρ.pairing)
    (hslot : b = true → ρ.left.store.slot k = σ.left.store.slot k) : Gives ρ b k j := by
  obtain ⟨⟨k', hk⟩, hj⟩ := hk
  refine ⟨⟨k', hk.mono hρ⟩, hj.imp (·.mono hρ) fun hcopy => ⟨hcopy.1, ?_⟩⟩
  rw [hslot hcopy.1]
  exact hρ.2 hcopy.2

namespace GivesAll

variable {bs : List Bool} {ks js : List SlotId}

theorem given (hall : GivesAll σ bs ks js) (h : σ.Abreast chosen c) :
    List.Forall₂ (Store.Given σ.left.store σ.right.store) ks js := by
  induction hall with
  | rest hpairs => exact hpairs.imp fun _ _ hij => h.store.given hij
  | cons hk _ ih => exact .cons (hk.given h) ih

theorem append_newSlot (hall : GivesAll σ bs ks js) (h : σ.Abreast chosen c) {ρ : Stage}
    (hρ : σ.pairing ≤ ρ.pairing) {v : Value}
    (hstore : ρ.left.store = (σ.left.store.newSlot v).2) {k j : SlotId}
    (hk : ρ.pairing.Pairs k j) : GivesAll ρ bs (ks ++ [k]) (js ++ [j]) := by
  induction hall with
  | rest hpairs =>
    exact .rest (List.rel_append (hpairs.imp fun _ _ hij => hij.mono hρ) (.cons hk .nil))
  | cons hfirst _ ih =>
    refine .cons (hfirst.later hρ fun _ => ?_) ih
    rw [hstore, Store.slot_newSlot_of_lt (hfirst.given h).lt]

theorem pairs (hall : GivesAll σ bs ks js) (hnone : ∀ b ∈ bs, b = false) :
    List.Forall₂ σ.pairing.Pairs ks js := by
  induction hall with
  | rest hpairs => exact hpairs
  | cons hk _ ih =>
    obtain ⟨hpick, hnone⟩ := List.forall_mem_cons.mp hnone
    exact .cons (hk.pairs hpick) (ih hnone)

/-- a function that copies the arguments that are picked takes what is passed -/
theorem accepts (hall : GivesAll σ bs ks js) (h : σ.Abreast chosen c) {byRef : Bool} {f : Function}
    (hf : f.copies byRef bs = true) : f.Accepts byRef σ ks js := by
  cases f with
  | host _ _ _ => exact hall.pairs (by simpa [Function.copies] using hf)
  | script d _ =>
    refine ⟨hall.given h, ?_⟩
    replace hf : ∀ x ∈ d.params.zip bs, ¬ (x.2 = true ∧ x.1.byRef.getD byRef = true) := by
      rintro x hx ⟨hpick, hbyRef⟩
      have hcopies := List.all_eq_true.mp hf x hx
      simp [hpick, hbyRef] at hcopies
    show ∀ x ∈ d.params.zip _, _
    generalize d.params = ps at hf ⊢
    induction hall generalizing ps with
    | rest hpairs =>
      intro x hx _
      exact (List.forall₂_iff_zip.mp hpairs).2 (List.of_mem_zip (a := x.1) (b := x.2) hx).2
    | cons hk _ ih =>
      cases ps with
      | nil => simp
      | cons param ps =>
        obtain ⟨hfirst, hf⟩ := List.forall_mem_cons.mp hf
        refine List.forall_mem_cons.mpr ⟨fun hbyRef => ?_, ih ps hf⟩
        refine hk.pairs (Bool.eq_false_iff.mpr fun hpick => ?_)
        exact hfirst ⟨hpick, hbyRef⟩

end GivesAll

section

variable {i : Invoke Guarded} {i' : Invoke Eval} (hi : InvokesAlongside chosen i i')
include hi

/-- a call that passes a copy for an argument that is picked -/
theorem alongside_passing (h : σ.Abreast chosen c) {args args' : List Expr} {ks js : List SlotId}
    (hall : GivesAll σ (args.map (·.isPicked c.pick)) ks js) (id : FunctionId) (l : Location) :
    Alongside chosen c σ Counterparts (Runner.passing id args (Eval.call i id ks l))
      (Runner.passing id args' (Eval.call i' id js l)) := by
  have hdemand : (Guarded.demand id args).outcome c.warrant σ.left
      = if (σ.left.store.function id).copies c.config.byRef (args.map (·.isPicked c.pick)) = true
        then (.ok (), σ.left) else (.error .broken, σ.left) := rfl
  show Alongside chosen c σ Counterparts (Guarded.demand id args >>= fun _ => Eval.call i id ks l)
    (Eval.call i' id js l)
  rw [Alongside, Guarded.outcome_bind, hdemand]
  by_cases hcopies :
      (σ.left.store.function id).copies c.config.byRef (args.map (·.isPicked c.pick)) = true
  · rw [if_pos hcopies]
    exact alongside_call hi h (hall.accepts h hcopies) l
  · rw [if_neg hcopies]
    exact .broken

/-! ## expressions -/

omit hi in
/-- while the arguments to the right are evaluated, the slot of an argument that is picked keeps its
value, and so holds what a copy of it holds -/
theorem alongside_beside (h : σ.Abreast chosen c) {e e' : Expr} {k j : SlotId}
    (hk : Gives σ (e.isPicked c.pick) k j) {x : Guarded α} {y : Eval β}
    (hx : ∀ {c' : Terms}, c'.pick = c.pick → σ.Abreast chosen c' → Alongside chosen c' σ V x y) :
    Alongside chosen c σ (fun τ a b => V τ a b ∧
        (e.isPicked c.pick = true → τ.left.store.slot k = σ.left.store.slot k))
      (Runner.beside e k x) (Runner.beside e' j y) := by
  have hbeside : (Runner.beside e k x : Guarded α).outcome c.warrant σ.left
      = (if e.isPicked c.pick then Guarded.pledging k (Runner.holding [.slot k] x)
          else Runner.holding [.slot k] x).outcome c.warrant σ.left := rfl
  rw [Alongside, hbeside]
  by_cases hpick : e.isPicked c.pick = true
  · rw [if_pos hpick]
    have hpledged := Alongside.pledging h rfl (hk.slot.imp_right And.right) fun h => hx rfl h
    exact hpledged.imp fun _ _ _ hab => ⟨hab.1, fun _ => hab.2⟩
  · rw [if_neg hpick]
    have hpairs := hk.pairs (Bool.eq_false_iff.mpr hpick)
    have hheld := Alongside.holding h (.cons (.slot hpairs) .nil) fun h => hx rfl h
    exact hheld.imp fun _ _ _ hab => ⟨hab, fun hpicked => absurd hpicked hpick⟩

theorem alongside_passed (h : σ.Abreast chosen c) (scope : ScopeId) {e : Expr} {x : Guarded Value}
    (hvalue : Alongside chosen c σ Equal x (Eval.eval i' scope (e.copying chosen))) :
    let e' := if e.isPicked chosen then .paren e.location e else e.copying chosen
    Alongside chosen c σ (fun τ => Gives τ (e.isPicked c.pick)) (argument i scope e x)
      (argument i' scope e' (Eval.eval i' scope e')) := by
  intro e'
  by_cases hcopied : e.isPicked chosen = true
  · have he' : e' = .paren e.location e := if_pos hcopied
    rw [he']
    cases e with
    | path l names =>
      have hpick : (Expr.path l names).isPicked c.pick = true := h.picked l hcopied
      rw [hpick, Eval.eval]
      exact .copied (alongside_pathSlot hi h scope l names)
    | _ => cases hcopied
  · have he' : e' = e.copying chosen := if_neg hcopied
    rw [he']
    exact (alongside_argument hi h scope e hvalue).imp fun _ _ _ hk => .of_pairs hk _

mutual
theorem alongside_eval (scope : ScopeId) : ∀ (e : Expr) {c : Terms} {σ : Stage},
    σ.Abreast chosen c →
      Alongside chosen c σ Equal (Eval.eval i scope e)
        (Eval.eval i' scope (e.copying chosen))
  | .literal _ _, _, _, h => .pure h rfl
  | .path l names, _, _, h => by
    refine (alongside_pathSlot hi h scope l names).bind ?_
    rintro τ k k' - h hk
    exact .getSlot h hk
  | .binary l op a b, _, _, h => by
    refine (alongside_eval scope a h).bind ?_
    rintro τ v _ - h rfl
    refine (Alongside.holding h (RefKept.refs _ _ v) fun h => alongside_eval scope b h).bind ?_
    rintro τ u _ - h rfl
    exact .check h l _
  | .unary l op a, _, _, h => by
    refine (alongside_eval scope a h).bind ?_
    rintro τ v _ - h rfl
    exact .check h l _
  | .call l e args, _, _, h => by
    refine (alongside_callee hi h scope e (alongside_eval scope e h)).bind ?_
    rintro τ f _ - h rfl
    refine (alongside_arguments scope args h).bind ?_
    rintro τ passed args' - h hpassed
    refine (alongside_passing hi h hpassed f l).bind ?_
    rintro τ k k' - h hk
    exact .getSlot h hk
  | .new l n, _, _, h => alongside_instantiate hi h scope l n
  | .paren _ a, _, _, h => by
    rw [Eval.eval, Expr.copying, Eval.eval]
    exact alongside_eval scope a h

theorem alongside_arguments (scope : ScopeId) : ∀ (es : List Expr) {c : Terms} {σ : Stage},
    σ.Abreast chosen c →
      Alongside chosen c σ (fun τ => GivesAll τ (es.map (·.isPicked c.pick)))
        (Eval.arguments i scope es) (Eval.arguments i' scope (Expr.copyingArgs chosen es))
  | [], _, _, h => .pure h (.rest .nil)
  | e :: es, _, _, h => by
    refine (alongside_passed hi h scope (alongside_eval scope e h)).bind ?_
    rintro τ k j - h hk
    refine (alongside_beside h hk fun hpick h => hpick ▸ alongside_arguments scope es h).bind ?_
    rintro ρ ks js hρ h ⟨hall, hslot⟩
    exact .pure h (.cons (hk.later hρ hslot) hall)
end

theorem alongside_evalSlot (h : σ.Abreast chosen c) (scope : ScopeId) (e : Expr) :
    Alongside chosen c σ Counterparts (Eval.evalSlot i scope e)
      (Eval.evalSlot i' scope (e.copying chosen)) := by
  have hvalue := alongside_eval hi scope e h
  cases e with
  | path l names => exact alongside_pathSlot hi h scope l names
  | call l e args =>
    refine (alongside_callee hi h scope e (alongside_eval hi scope e h)).bind ?_
    rintro τ f _ - h rfl
    refine (alongside_arguments hi scope args h).bind ?_
    rintro τ passed args' - h hpassed
    exact alongside_passing hi h hpassed f l
  | _ =>
    refine hvalue.bind ?_
    rintro τ v _ - h rfl
    exact .newSlot h v

/-! ## assignment -/

theorem alongside_assignMember (h : σ.Abreast chosen c) (target l : Location) (object : ObjectId)
    (n : String) (v : Value) :
    Alongside chosen c σ Equal (assignMember i target l object n v)
      (assignMember i' target l object n v) := by
  refine (Alongside.member? h object n).bind ?_
  rintro τ found found' - h hfound
  cases hfound with
  | @some k k' hk =>
    refine (Alongside.peek h hk).bind ?_
    rintro τ value _ - h ⟨rfl, rfl⟩
    cases value with
    | function id =>
      refine (Alongside.newSlot h v).bind ?_
      rintro τ arg arg' hτ h harg
      have hrefs : List.Forall₂ (RefKept τ.pairing c.pledges) [.object object, .slot k]
          [.object object, .slot k'] := .cons (.object object) (.cons (.slot (hk.mono hτ)) .nil)
      refine (Alongside.holding h hrefs fun h =>
        alongside_callWith hi h (.cons harg .nil) id l).bind ?_
      rintro τ _ _ - h -
      exact .pure h rfl
    | _ => exact .setSlot h hk v
  | none =>
    have hinstance : Alongside chosen c τ Equal (Runner.step (Eval.isInstance object))
        (Runner.step (Eval.isInstance object)) :=
      .reading h (congrArg Option.isSome (h.store.object object).scope)
    refine hinstance.bind ?_
    rintro τ inst _ - h rfl
    cases inst with
    | true => exact .fail h target _
    | false =>
      refine (Alongside.change (R := Pairing.Pairs) (f := (·.define object n v))
        (g := (·.define object n v)) h (τ.pairing.le_push _) (h.store.define object n v)
        h.store.pairs_new).bind ?_
      rintro τ _ _ - h -
      exact .pure h rfl

theorem alongside_assign (h : σ.Abreast chosen c) (scope : ScopeId) (l : Location) (v : Value)
    (e : Expr) :
    Alongside chosen c σ Equal (Eval.assign i scope l v e)
      (Eval.assign i' scope l v (e.copying chosen)) := by
  have hv {τ : Stage} := RefKept.refs τ.pairing c.pledges v
  cases e with
  | path target names =>
    match names with
    | [] => exact .fail h l _
    | [n] =>
      exact .holding h hv fun h =>
        .act h (fun hheld => acted_assign h.store hheld scope n v) target
    | first :: second :: more =>
      refine (Alongside.holding h hv fun h => alongside_resolvePath hi h scope target _).bind ?_
      rintro τ k k' - h hk
      refine (Alongside.holding h hv fun h => alongside_objectIn hi h hk target _).bind ?_
      rintro τ object _ - h rfl
      exact alongside_assignMember hi h target l object _ v
  | call _ e args =>
    refine (Alongside.holding h hv fun h => alongside_callee hi h scope e
      (alongside_eval hi scope e h)).bind ?_
    rintro τ f _ - h rfl
    refine (Alongside.holding h hv fun h => alongside_arguments hi scope args h).bind ?_
    rintro τ passed args' - h hpassed
    have hnew : Alongside chosen c τ
        (fun ρ k j => ρ.pairing.Pairs k j ∧ ρ.left.store = (τ.left.store.newSlot v).2)
        (Runner.step (Eval.newSlot v)) (Runner.step (Eval.newSlot v)) :=
      .step h (.ok (τ.pairing.le_push _) { h.machine with store := h.store.newSlot v }
        ⟨h.store.pairs_new, rfl⟩)
    refine hnew.bind ?_
    rintro ρ last last' hρ hlater ⟨hlast, hstore⟩
    refine (alongside_passing hi hlater (hpassed.append_newSlot h hρ hstore hlast) f l).bind ?_
    rintro τ _ _ - h -
    exact .pure h rfl
  | _ => exact .fail h l _

/-! ## execution -/

mutual
theorem alongside_perform (scope : ScopeId) : ∀ (s : Stmt) {c : Terms} {σ : Stage},
    σ.Abreast chosen c →
      Alongside chosen c σ Equal (Eval.perform i scope s)
        (Eval.perform i' scope (s.copying chosen))
  | .function _, _, _, h => .pure h rfl
  | .class _, _, _, h => .pure h rfl
  | .dim _, _, _, h => .pure h rfl
  | .optionExplicit _, _, _, h => .pure h rfl
  | .exit .., _, _, h => .pure h rfl
  | .assign l target value, _, _, h => by
    refine (alongside_eval hi scope value h).bind ?_
    rintro τ v _ - h rfl
    refine (alongside_assign hi h scope l v target).bind ?_
    rintro τ _ _ - h -
    exact .pure h rfl
  | .cond _ condition t e, _, _, h => by
    refine (alongside_eval hi scope condition h).bind ?_
    rintro τ v _ - h rfl
    rw [Expr.location_copying]
    refine (Alongside.check h _ v.truth).bind ?_
    rintro τ taken _ - h rfl
    cases taken with
    | true => exact alongside_execute scope t h
    | false => exact alongside_execute scope e h
  | .expr _ e, _, _, h => by
    refine (alongside_evalSlot hi h scope e).bind ?_
    rintro τ _ _ - h -
    exact .pure h rfl

theorem alongside_executeAll (scope : ScopeId) : ∀ (ss : List Stmt) {c : Terms} {σ : Stage},
    σ.Abreast chosen c →
      Alongside chosen c σ Equal (Eval.executeAll i scope ss)
        (Eval.executeAll i' scope (Stmt.copyingAll chosen ss))
  | [], _, _, h => .pure h rfl
  | s :: ss, _, _, h => by
    rw [Eval.executeAll, Stmt.copyingAll, Eval.executeAll, Stmt.location_copying]
    refine (Alongside.start h scope s.location).bind ?_
    rintro τ _ _ - h -
    refine (alongside_perform scope s h).bind ?_
    rintro τ flow _ - h rfl
    cases flow with
    | normal => exact alongside_executeAll scope ss h
    | exit => exact .pure h rfl

theorem alongside_execute (scope : ScopeId) : ∀ (b : Block) {c : Terms} {σ : Stage},
    σ.Abreast chosen c →
      Alongside chosen c σ Equal (Eval.execute i scope b)
        (Eval.execute i' scope (b.copying chosen))
  | ⟨_, ss⟩, _, _, h => alongside_executeAll scope ss h
end

omit hi in
theorem alongside_invoke (n : Nat) :
    InvokesAlongside chosen (calls n) (Eval.invoke n) := by
  induction n with
  | zero =>
    intro c σ d home args args' l h _
    exact .fail h l _
  | succ n ih =>
    intro c σ d home args args' l h hpasses
    obtain ⟨hscope, w, hw, hs⟩ := h.store.activate d home hpasses
    have henter : Alongside chosen c σ Equal (Runner.step (Eval.enter d home args))
        (Runner.step (Eval.enter (d.copying chosen) home args')) :=
      .step h (.ok hw { h.machine with store := hs } hscope)
    refine henter.bind ?_
    rintro τ scope _ - h rfl
    rw [FunctionDecl.body_copying]
    refine (Alongside.holding h (.cons (.scope home) (.cons (.scope scope) .nil)) fun h =>
      alongside_execute ih scope d.body h).bind ?_
    rintro τ _ _ - h -
    exact .reading h (h.store.scope scope).result

omit hi in
/-- a guarded run of a program goes along with an ordinary run of the program with parentheses
around some of the arguments that are picked -/
theorem alongside_runBlock (h : σ.Abreast chosen c) (scope : ScopeId) (b : Block) :
    Alongside chosen c σ Equal (Guarded.runBlock scope b)
      (Eval.runBlock scope (b.copying chosen)) := by
  have hrun : Alongside chosen c σ Equal
      (Eval.runWith (calls c.config.maxCallDepth) scope b)
      (Eval.runWith (Eval.invoke c.config.maxCallDepth) scope (b.copying chosen)) := by
    refine (Alongside.modifyStore h (h.store.hoist scope b)).bind ?_
    rintro τ _ _ - h -
    refine (alongside_execute (alongside_invoke _) scope b h).bind ?_
    rintro τ _ _ - h -
    exact .pure h rfl
  have hleft : (Guarded.runBlock scope b).outcome c.warrant σ.left
      = (Eval.runWith (calls c.config.maxCallDepth) scope b : Guarded Unit).outcome c.warrant
          σ.left := by
    rw [Guarded.runBlock, Guarded.outcome_bind]
    rfl
  rw [Alongside, hleft, Eval.outcome_runBlock]
  exact hrun

end

end

end PageScript
