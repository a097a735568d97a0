import PageScript.Proofs.Eval.Lockstep
import PageScript.Proofs.Host
import PageScript.Proofs.Store.Alike

/-!
# Runs do not see how names are spelled

Programs that differ only in the case of letters in names and in locations are alike, and they run
alike: step by step, from stores that are alike to stores that are alike.  Every table folds names
on the way in and on the way out, the name under which a function's body finds its result included,
so no step can tell the spellings apart; locations and spellings only show in errors.

* `Eval.Alike`            evaluations that go alike;
* `Eval.spelling`         every single step does;
* `Session.run_spelling`  whole runs do, in a session where only the page's `response` and values
                          other than functions are registered.
-/

namespace PageScript

open Eval Runner

structure RuntimeError.Alike (k : Likeness) (e e' : RuntimeError) : Prop where
  location : k.locs e.location e'.location
  fault : e.fault.Alike k e'.fault

structure Machine.Alike (k : Likeness) (m m' : Machine) : Prop where
  store : m.store.Alike k m'.store
  steps : m.steps = m'.steps
  output : m.output = m'.output

/-- two outcomes, both successes or both failures, in states that are related -/
inductive Together {ε α σ : Type} (E : ε → ε → Prop) (S : σ → σ → Prop) (V : α → α → Prop) :
    Except ε α × σ → Except ε α × σ → Prop
  | ok {a b s s'} : V a b → S s s' → Together E S V (.ok a, s) (.ok b, s')
  | error {e e' s s'} : E e e' → S s s' → Together E S V (.error e, s) (.error e', s')

theorem Together.of_matches {ε α σ : Type} {E : ε → ε → Prop} {S : σ → σ → Prop} {V : α → α → Prop}
    {r r' : Except ε α} {s s' : σ} (h : Matches E V r r') (hs : S s s') :
    Together E S V (r, s) (r', s') := by
  cases h with
  | ok hab => exact .ok hab hs
  | error he => exact .error he hs

section

variable {ε α σ : Type} {E : ε → ε → Prop} {S : σ → σ → Prop} {V U : α → α → Prop}
  {o o' : Except ε α × σ}

theorem Together.imp (h : Together E S V o o') (hVU : ∀ a b, V a b → U a b) :
    Together E S U o o' := by
  cases h with
  | ok hab hs => exact .ok (hVU _ _ hab) hs
  | error he hs => exact .error he hs

theorem Together.result (h : Together E S V o o') : Matches E V o.1 o'.1 := by
  cases h with
  | ok hab _ => exact .ok hab
  | error he _ => exact .error he

theorem Together.state (h : Together E S V o o') : S o.2 o'.2 := by
  cases h <;> assumption

end

variable {L : Location → Location → Prop}

/-! ## actions on variables -/

namespace Action

variable {α β : Type}

/-- actions that go alike -/
def Alike (k : Likeness) (V : α → α → Prop) (x x' : Action α) : Prop :=
  ∀ held s s', s.Alike k s' →
    Together (RuntimeFault.Alike k) (Store.Alike k) V (x.outcome held s) (x'.outcome held s')

theorem Alike.bind {k : Likeness} {V : α → α → Prop} {U : β → β → Prop} {x x' : Action α}
    {f f' : α → Action β} (hx : Alike k V x x') (hf : ∀ a b, V a b → Alike k U (f a) (f' b)) :
    Alike k U (x >>= f) (x' >>= f') := by
  intro held s s' h
  have hxx := hx held s s' h
  rw [outcome_bind, outcome_bind]
  generalize x.outcome held s = o at hxx ⊢
  generalize x'.outcome held s' = o' at hxx ⊢
  cases hxx with
  | error hfault hstore => exact .error hfault hstore
  | ok hab hstore => exact hf _ _ hab held _ _ hstore

theorem alike_change {k : Likeness} {f f' : Store → α × Store}
    (hf : ∀ {s s'}, s.Alike k s' → Store.SameAfter k (f s) (f' s')) :
    Alike k Eq (change f) (change f') :=
  fun _ _ _ h => .ok (hf h).result (hf h).store

variable {n n' : String} (hn : Text.fold n = Text.fold n')
include hn

theorem alike_findClass (c : ScopeId) :
    Alike (.spelled L) (Option.Rel fun p p' => p.1.Alike (.spelled L) p'.1 ∧ p.2 = p'.2)
      (ask fun s held => s.findClass held n c) (ask fun s held => s.findClass held n' c) := by
  intro held s s' h
  rw [outcome_ask, outcome_ask]
  have hfound := h.findClass hn held c
  generalize s.findClass held n c = found at hfound ⊢
  generalize s'.findClass held n' c = found' at hfound ⊢
  cases hfound with
  | error he => exact .error (he ▸ .same _) h
  | ok hfound => exact .ok hfound h

theorem alike_lookup (use : Use) (c : ScopeId) :
    Alike (.spelled L) Eq (lookup use c n) (lookup use c n') := by
  intro held s s' h
  rw [lookup, lookup, outcome_bind, outcome_bind, outcome_ask, outcome_ask, h.find hn]
  rcases s'.find held use n' c with e | _ | slot | object
  · exact .error (.same e) h
  · exact .ok rfl h
  · exact .ok rfl h
  · have hslot := h.newSlot (.object object)
    exact .ok (congrArg some hslot.result) hslot.store

theorem alike_resolve (c : ScopeId) :
    Alike (.spelled L) Eq (resolve c n) (resolve c n') := by
  refine (alike_lookup hn .variable c).bind ?_
  rintro found _ rfl
  cases found with
  | some slot => exact fun _ _ _ h => .ok rfl h
  | none =>
    -- whether a declaration is compulsory is read off the store
    intro held s s' h
    have hexplicit := (h.scope c).isExplicit
    show Together _ _ _
      (outcome (if (s.scope c).isExplicit then throw (.undeclared n)
        else change (·.declare c n .empty)) held s)
      (outcome (if (s'.scope c).isExplicit then throw (.undeclared n')
        else change (·.declare c n' .empty)) held s')
    rw [hexplicit]
    split
    · exact .error (.undeclared hn) h
    · exact alike_change (fun h => h.declare c hn .empty) held s s' h

theorem alike_assign (c : ScopeId) (v : Value) :
    Alike (.spelled L) Eq (assign c n v) (assign c n' v) := by
  refine (alike_resolve hn c).bind ?_
  rintro slot _ rfl
  exact fun held s s' h => .ok rfl (h.setSlot slot v)

end Action

/-! ## evaluations -/

namespace Eval

variable {α β : Type}

def Alike (k : Likeness) (V : α → α → Prop) (x x' : Eval α) : Prop :=
  ∀ env m m', m.Alike k m' →
    Together (RuntimeError.Alike k) (Machine.Alike k) V (x.outcome env m) (x'.outcome env m')

theorem Alike.bind {k : Likeness} {V : α → α → Prop} {U : β → β → Prop} {x x' : Eval α}
    {f f' : α → Eval β} (hx : Alike k V x x') (hf : ∀ a b, V a b → Alike k U (f a) (f' b)) :
    Alike k U (x >>= f) (x' >>= f') := by
  intro env m m' h
  have hxx := hx env m m' h
  rw [outcome_bind, outcome_bind]
  generalize x.outcome env m = o at hxx ⊢
  generalize x'.outcome env m' = o' at hxx ⊢
  cases hxx with
  | error he hm => exact .error he hm
  | ok hab hm => exact hf _ _ hab env _ _ hm

theorem Alike.imp {k : Likeness} {V U : α → α → Prop} {x x' : Eval α} (hx : Alike k V x x')
    (hVU : ∀ a b, V a b → U a b) : Alike k U x x' :=
  fun env m m' h => (hx env m m' h).imp hVU

section

variable {k : Likeness} {V : α → α → Prop} {l l' : Location}

theorem alike_fail (hl : k.locs l l') {f f' : RuntimeFault} (hf : f.Alike k f') :
    Alike k V (fail l f) (fail l' f') :=
  fun _ _ _ h => .error ⟨hl, hf⟩ h

theorem alike_check (hl : k.locs l l') (r : Except RuntimeFault α) :
    Alike k Eq (check l r) (check l' r) := by
  cases r with
  | ok a => exact fun _ _ _ h => .ok rfl h
  | error f => exact alike_fail hl (.same f)

theorem alike_change {f f' : Store → α × Store}
    (hf : ∀ {s s'}, s.Alike k s' → Store.SameAfter k (f s) (f' s')) :
    Alike k Eq (change f) (change f') :=
  fun _ _ _ h => .ok (hf h.store).result { h with store := (hf h.store).store }

theorem alike_modifyStore {f f' : Store → Store}
    (hf : ∀ {s s'}, s.Alike k s' → (f s).Alike k (f' s')) :
    Alike k Eq (modifyStore f) (modifyStore f') :=
  fun _ _ _ h => .ok rfl { h with store := hf h.store }

theorem alike_reading {f f' : Store → α} (hf : ∀ {s s'}, s.Alike k s' → V (f s) (f' s')) :
    Alike k V (do return f (← store)) (do return f' (← store)) :=
  fun _ _ _ h => .ok (hf h.store) h

theorem heldIn_eq {m m' : Machine} (h : m.Alike k m') (env : Env) :
    env.heldIn m = env.heldIn m' := by
  rw [Env.heldIn, Env.heldIn, h.output]

theorem alike_isAlive (r : Ref) : Alike k Eq (isAlive r) (isAlive r) := by
  intro env m m' h
  rw [outcome_isAlive, outcome_isAlive, heldIn_eq h env, h.store.alive]
  exact .ok rfl h

theorem alike_act (hl : k.locs l l') {x x' : Action α} (hx : Action.Alike k V x x') :
    Alike k V (act l x) (act l' x') := by
  intro env m m' h
  have hxx := hx (env.heldIn m) m.store m'.store h.store
  rw [outcome_act, outcome_act, ← heldIn_eq h env]
  generalize x.outcome (env.heldIn m) m.store = o at hxx ⊢
  generalize x'.outcome (env.heldIn m) m'.store = o' at hxx ⊢
  cases hxx with
  | ok hab hs => exact .ok hab { h with store := hs }
  | error hf hs => exact .error ⟨hl, hf⟩ { h with store := hs }

theorem alike_write (hl : k.locs l l') (home : ScopeId) (args : List SlotId) :
    Alike k Eq (Routine.write.call l home args) (Routine.write.call l' home args) := by
  match args with
  | [slot] =>
    intro env m m' h
    refine .ok rfl { h with output := ?_ }
    show m.output.push (m.store.slot slot) = m'.output.push (m'.store.slot slot)
    rw [h.output, h.store.slot]
  | [] => exact alike_fail hl (.same _)
  | _ :: _ :: _ => exact alike_fail hl (.same _)

end

theorem alike_step {fit : ScopeId → Prop} {p p' : Eval α}
    (h : StepsAlike (.spelled L) fit (· = .write) p p') : Alike (.spelled L) Eq p p' := by
  cases h with
  | check r hl => exact alike_check hl r
  | getSlot id => exact alike_reading fun h => h.slot id
  | setSlot id v => exact alike_modifyStore fun h => h.setSlot id v
  | newSlot v => exact alike_change fun h => h.newSlot v
  | isAlive r => exact alike_isAlive r
  | isInstance id =>
    refine alike_reading fun {s s'} h => ?_
    rw [Store.isInstance, Store.isInstance, (h.object id).scope]
  | resultSlot id => exact alike_reading fun h => (h.scope id).result
  | member? id hn => exact alike_reading fun h => h.field? hn id
  | define id v hn => exact alike_change fun h => h.define id hn v
  | resolve _ hl hn => exact alike_act hl (Action.alike_resolve hn _)
  | lookup use _ hl hn => exact alike_act hl (Action.alike_lookup hn use _)
  | assign v _ hl hn => exact alike_act hl (Action.alike_assign hn _ v)
  | newInstance hd _ => exact alike_change fun h => h.newInstance hd _
  | hoist hb _ => exact alike_modifyStore fun h => .hoist _ hb h
  | call args hroutine _ hl =>
    obtain rfl := hroutine
    exact alike_write hl _ args

/-- evaluations of programs with other spellings and locations, in stores where the only routine of
the host is the one that writes -/
def spelling (L : Location → Location → Prop) : Simulation Unit Eval Eval where
  like := .spelled L
  scope _ _ := True
  scope_mono _ _ := trivial
  routine r := r = .write
  rel w V := Alike (.spelled L) (V w)
  pure hab _ _ _ h := .ok hab h
  bind hx hf := hx.bind fun a b hab => hf () a b le_rfl hab
  holding refs hx env m m' h := hx { env with held := refs ++ env.held } m m' h
  start {_ _ l l'} _ hl env m m' h := by
    show Together _ _ _ ((countStep l).outcome env m) ((countStep l').outcome env m')
    rw [outcome_countStep, outcome_countStep, h.steps]
    refine .of_matches ?_ { h with steps := rfl }
    unfold Config.budgetAt
    split
    · split
      · exact .error ⟨hl, .same _⟩
      · exact .ok rfl
    · exact .ok rfl
  fail hl hf := alike_fail hl hf
  unknown {_ c _ _ _ _} _ hl hn := by
    refine (alike_reading fun h => (h.scope c).isExplicit).bind ?_
    rintro explicit _ rfl
    cases explicit with
    | true => exact alike_fail hl (.undeclared hn)
    | false => exact fun _ _ _ h => .ok rfl h
  same h := alike_step h
  findClass _ hl hn := by
    refine (alike_act hl (Action.alike_findClass hn _)).imp fun found found' hfound => ?_
    cases hfound with
    | none => exact .none
    | some hp => exact .some ⟨hp.1, hp.2, trivial⟩
  function id _ _ _ h := .ok ⟨h.store.function id, trivial, h.store.routine id⟩ h
  enter {_ d d' home} args hd _ env m m' h := by
    have hactivation := h.store.activate env.config.byRef hd home args
    exact .ok ⟨hactivation.result, trivial⟩ { h with store := hactivation.store }

theorem spelling_invoke (n : Nat) : (spelling L).Invokes (invoke n) (invoke n) := by
  induction n with
  | zero =>
    intro _ _ _ _ _ _ args _ _ hl env m m' h
    exact .error ⟨hl, .same _⟩ h
  | succ n ih => exact (spelling L).calls_succ ih

theorem alike_runBlock (scope : ScopeId) {b b' : Block} (hb : b.Alike (.spelled L) b') :
    Alike (.spelled L) Eq (runBlock scope b) (runBlock scope b') := by
  intro env m m' h
  rw [outcome_runBlock, outcome_runBlock]
  exact (spelling L).runWith (w := ()) (spelling_invoke _) trivial hb env m m' h

end Eval

/-! ## sessions -/

namespace Session

/-- the sessions in which the host has registered `response`, objects and values, and nothing has
run; the only functions there are write to the page -/
abbrev Prepared : Session → Prop := Under fun
  | _, .registerResponse | _, .register _ _ | _, .newObject _ | _, .define _ _ _ | _, .pin _ => True
  | _, _ => False

/-- where nothing has run, there is nothing to spell in two ways -/
theorem Prepared.alike {s : Session} (h : s.Prepared) : s.store.Alike (.spelled L) s.store :=
  h.upheld (I := fun _ store => store.Alike (.spelled L) store)
    { start := fun isExplicit => ((Store.alike_empty _).newScope [] isExplicit rfl).store
      register := fun {_ _ v} _ _ ih => (ih.declare _ rfl v).store
      registerResponse := fun {s} _ _ ih => by
        have hwrite : (Function.host "write" s.globals .write).Alike (.spelled L) _ := .host rfl
        have hfunction := (ih.newFunction hwrite rfl).store
        have hobject := (hfunction.newObject (o := ⟨"Response", .empty, none⟩)
          ⟨rfl, rfl, rfl⟩).store
        exact ((hobject.define _ rfl _).store.declare _ rfl _).store
      newObject := fun _ _ ih => (ih.newObject ⟨rfl, rfl, rfl⟩).store
      define := fun {_ id _ v} _ _ ih => (ih.define id rfl v).store }

theorem globalValues_eq {s s' : Session} {k : Likeness} (h : s.store.Alike k s'.store)
    (hglobals : s.globals = s'.globals) : s.globalValues = s'.globalValues := by
  unfold globalValues
  rw [hglobals, (h.scope s'.globals).bindings]
  simp only [h.slot]

/-- runs of programs that differ only in the case of letters in names and in locations: both
succeed, or both fail with one fault up to the spelling of names, where `L` relates the location of
every node of one program to that of the same node of the other.  They start as many statements,
write the same values, and end with the same global names for the same values, in stores that are
alike; what an identity stands for is declared alike, and objects are of one class up to its
spelling. -/
theorem run_spelling {s : Session} (hs : s.Prepared) {b b' : Block}
    (hb : b.Alike (.spelled L) b') :
    let ended := s.perform 0 (runBlock s.globals b)
    let ended' := s.perform 0 (runBlock s.globals b')
    Matches (fun e e' => L e.location e'.location ∧ e.fault.Alike (.spelled L) e'.fault) Eq
        ended.1 ended'.1 ∧
      ended.2.1 = ended'.2.1 ∧
      ended.2.2.output = ended'.2.2.output ∧
      ended.2.2.globalValues = ended'.2.2.globalValues ∧
      ended.2.2.store.Alike (.spelled L) ended'.2.2.store ∧
      ∀ id, Text.fold (ended.2.2.store.object id).className
        = Text.fold (ended'.2.2.store.object id).className := by
  intro ended ended'
  have hm : Machine.Alike (.spelled L) ⟨s.store, 0, s.output⟩ ⟨s.store, 0, s.output⟩ :=
    ⟨hs.alike, rfl, rfl⟩
  have hrun := Eval.alike_runBlock s.globals hb s.env _ _ hm
  have hresult := hrun.result.imp fun e e' he => (⟨he.location, he.fault⟩ : _ ∧ _)
  obtain ⟨hstore, hsteps, houtput⟩ := hrun.state
  exact ⟨hresult, hsteps, houtput, globalValues_eq hstore rfl, hstore,
    fun id => (hstore.object id).className⟩

/-- a class, an instance of it that is written, and a member that it lacks; one statement a line -/
def classScript (source className name member : String) : Block :=
  ⟨⟨source, 1, 1⟩,
    [.class ⟨⟨source, 1, 1⟩, className, [⟨⟨source, 1, 20⟩, name⟩], []⟩,
    .assign ⟨source, 2, 3⟩ (.path ⟨source, 2, 1⟩ [name]) (.new ⟨source, 2, 5⟩ className),
    .expr ⟨source, 3, 1⟩ (.call ⟨source, 3, 1⟩ (.path ⟨source, 3, 1⟩ ["response", "write"])
      [.path ⟨source, 3, 16⟩ [name]]),
    .expr ⟨source, 4, 1⟩ (.path ⟨source, 4, 1⟩ [name, member])]⟩

theorem run_spelling_classScript :
    let s := (start .default true).registerResponse
    let b := classScript "a.asp" "Point" "p" "Colour"
    let b' := classScript "b.asp" "POINT" "P" "colour"
    (s.perform 0 (runBlock s.globals b)).1 = .error ⟨⟨"a.asp", 4, 1⟩, .unknownMember "Colour"⟩ ∧
      (s.perform 0 (runBlock s.globals b')).1
        = .error ⟨⟨"b.asp", 4, 1⟩, .unknownMember "colour"⟩ ∧
      (s.perform 0 (runBlock s.globals b)).2.2.output.size = 1 ∧
      (s.perform 0 (runBlock s.globals b)).2.2.output
        = (s.perform 0 (runBlock s.globals b')).2.2.output := by
  intro s b b'
  have hs : s.Prepared := (Under.start _ _).registerResponse trivial
  have hname : Text.fold "p" = Text.fold "P" := by decide +kernel
  have hclass : Text.fold "Point" = Text.fold "POINT" := by decide +kernel
  have hmember : Text.fold "Colour" = Text.fold "colour" := by decide +kernel
  have hb : b.Alike (.spelled fun l l' => l.line = l'.line ∧ l.column = l'.column) b' :=
    .mk ⟨rfl, rfl⟩ <|
      .cons (.class (.mk ⟨rfl, rfl⟩ hclass (.cons ⟨⟨rfl, rfl⟩, hname⟩ .nil) .nil)) <|
      .cons (.assign ⟨rfl, rfl⟩ (.path ⟨rfl, rfl⟩ (.cons hname .nil)) (.new ⟨rfl, rfl⟩ hclass)) <|
      .cons (.expr ⟨rfl, rfl⟩ (.call ⟨rfl, rfl⟩ (.path ⟨rfl, rfl⟩ (.cons rfl (.cons rfl .nil)))
        (.cons (.path ⟨rfl, rfl⟩ (.cons hname .nil)) .nil))) <|
      .cons (.expr ⟨rfl, rfl⟩ (.path ⟨rfl, rfl⟩ (.cons hname (.cons hmember .nil)))) .nil
  have hrun := run_spelling hs hb
  exact ⟨by decide +kernel, by decide +kernel, by decide +kernel, hrun.2.2.1⟩

end Session

end PageScript
