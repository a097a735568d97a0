import PageScript.Proofs.Eval.Lockstep

/-!
# Watched runs

A watched run takes the steps of an ordinary run and keeps an eye on them.  It counts the calls of
script functions in progress: the count goes up before the body of a function is executed, goes
down behind it however the body ends, and is what the budget of calls is checked against.  It logs
every statement that starts, with the functions whose calls are in progress.  And it need not come
to an end by itself: `Watch.invoke` follows calls within calls only as far as its fuel goes, and a
run that would go on is left unfinished.

* `Watch.follows_run`   a watched run leaves the count as it found it, logs one entry for every
                        statement that it counts, and takes back nothing that was written;
* `Watch.run_eq`        with more fuel than calls that are allowed a watched run is finished, and
                        leaves what the ordinary run leaves.
-/

namespace PageScript

open Eval Runner

/-! ## the watched machine -/

/-- a statement that starts -/
structure Moment where
  location : Location
  /-- the functions whose calls are in progress, the innermost first -/
  calls : List FunctionDecl
  /-- the count of calls in progress -/
  depth : Nat

/-- a machine with what is observed of its run -/
structure Watched where
  machine : Machine
  /-- the count of calls of script functions in progress -/
  depth : Nat
  /-- the statements that started, in order -/
  log : List Moment

/-- what a watched run is given; it knows the functions whose calls are in progress -/
structure Vantage where
  env : Env
  calls : List FunctionDecl

/-- why a watched run has no result -/
inductive Halt
  | error (e : RuntimeError)
  /-- the run goes on, but is not followed any further -/
  | unfinished
deriving DecidableEq

abbrev Watch : Type → Type := ReaderT Vantage (ExceptT Halt (StateM Watched))

namespace Watch

variable {α β : Type}

def outcome (x : Watch α) (v : Vantage) (w : Watched) : Except Halt α × Watched :=
  (x.run v).run.run w

/-- a computation from what it leaves -/
def ofOutcome (f : Vantage → Watched → Except Halt α × Watched) : Watch α :=
  fun v => ExceptT.mk fun w => f v w

def take (x : Eval α) : Watch α :=
  ofOutcome fun v w =>
    let (result, machine) := x.outcome v.env w.machine
    (result.mapError .error, { w with machine })

/-- enters a statement into the log -/
def note (loc : Location) : Watch Unit :=
  ofOutcome fun v w => (.ok (), { w with log := w.log ++ [⟨loc, v.calls, w.depth⟩] })

instance : Runner Watch where
  step := take
  holding refs x := withReader (fun v => { v with env.held := refs ++ v.env.held }) x
  start _ loc := do
    note loc
    take (countStep loc)

instance : Ordinary Watch := ⟨fun _ _ _ => rfl, fun _ _ _ => rfl⟩

/-- another call is within the budget -/
def mayCall : Watch Bool :=
  ofOutcome fun v w => (.ok (decide (w.depth < v.env.config.maxCallDepth)), w)

/-- the body of a function: counted as a call in progress until it ends in any way -/
def inside (decl : FunctionDecl) (x : Watch α) : Watch α :=
  ofOutcome fun v w =>
    let (result, w) := x.outcome { v with calls := decl :: v.calls } { w with depth := w.depth + 1 }
    (result, { w with depth := w.depth - 1 })

def runBody (next : Invoke Watch) (decl : FunctionDecl) (home scope : ScopeId) :
    Watch SlotId := do
  let _ ← inside decl (holding [.scope home, .scope scope] (execute next scope decl.body))
  step (resultSlot scope)

/-- runs a script function, following `fuel` calls within calls -/
def invoke : Nat → Invoke Watch
  | 0 => fun _ _ _ _ => throw .unfinished
  | fuel + 1 => fun decl home args loc => do
    if ← mayCall then
      let scope ← step (enter decl home args)
      runBody (invoke fuel) decl home scope
    else step (refuseCall loc)

/-! ## outcomes -/

theorem mapError_inj {r r' : Except RuntimeError α}
    (h : r.mapError Halt.error = r'.mapError Halt.error) : r = r' := by
  cases r with
  | ok a => exact (mapError_eq_ok h.symm).symm
  | error e =>
    cases r' with
    | ok a => cases h
    | error e' => exact congrArg Except.error (Halt.error.inj (Except.error.inj h))

theorem outcome_bind (x : Watch α) (f : α → Watch β) (v : Vantage) (w : Watched) :
    (x >>= f).outcome v w
      = match x.outcome v w with
        | (.ok a, w₁) => (f a).outcome v w₁
        | (.error e, w₁) => (.error e, w₁) := by
  simp only [outcome, ReaderT.run_bind, ExceptT.run_bind, StateT.run_bind]
  rcases (x.run v).run.run w with ⟨_ | a, w₁⟩ <;> rfl

theorem outcome_step (p : Eval α) (v : Vantage) (w : Watched) :
    (step p : Watch α).outcome v w
      = ((p.outcome v.env w.machine).1.mapError .error,
          { w with machine := (p.outcome v.env w.machine).2 }) := rfl

theorem outcome_inside (decl : FunctionDecl) (x : Watch α) (v : Vantage) (w : Watched) :
    (inside decl x).outcome v w
      = match x.outcome { v with calls := decl :: v.calls } { w with depth := w.depth + 1 } with
        | (result, w₁) => (result, { w₁ with depth := w₁.depth - 1 }) := rfl

theorem outcome_invoke (fuel : Nat) (decl : FunctionDecl) (home : ScopeId) (args : List SlotId)
    (loc : Location) (v : Vantage) (w : Watched) :
    (invoke (fuel + 1) decl home args loc).outcome v w
      = if w.depth < v.env.config.maxCallDepth then
          (step (enter decl home args) >>= runBody (invoke fuel) decl home).outcome v w
        else (step (refuseCall loc) : Watch SlotId).outcome v w := by
  have h : mayCall.outcome v w = (.ok (decide (w.depth < v.env.config.maxCallDepth)), w) := rfl
  rw [invoke, outcome_bind, h]
  by_cases hd : w.depth < v.env.config.maxCallDepth
  · simp only [hd, decide_true, if_true]
  · simp only [hd, decide_false, if_false]
    rfl

theorem outcome_start (c : ScopeId) (loc : Location) (v : Vantage) (w : Watched) :
    (start c loc : Watch Unit).outcome v w
      = ((v.env.config.budgetAt loc (w.machine.steps + 1)).mapError .error,
          { w with machine.steps := w.machine.steps + 1
                   log := w.log ++ [⟨loc, v.calls, w.depth⟩] }) := by
  show (step (countStep loc) : Watch Unit).outcome v
    { w with log := w.log ++ [⟨loc, v.calls, w.depth⟩] } = _
  rw [outcome_step, outcome_countStep]

end Watch

/-! ## what a watched run keeps -/

/-- a statement that starts while some calls are in progress, and with a true count of them, which
is within the budget -/
structure Moment.Counted (moment : Moment) (calls : List FunctionDecl) (limit : Nat) : Prop where
  calls_suffix : calls <:+ moment.calls
  depth_eq : moment.depth = moment.calls.length
  depth_le : moment.depth ≤ limit

/-- how a watched machine comes after another one in a run where some calls are in progress and
some number of calls is allowed -/
structure Watched.Follows (calls : List FunctionDecl) (limit : Nat) (w w' : Watched) : Prop where
  /-- the count of calls is as it was -/
  depth : w'.depth = w.depth
  /-- what was written stays written -/
  output : w.machine.output.toList <+: w'.machine.output.toList
  /-- every statement that is counted has its entry in the log, with the true count of calls if it
  was true before -/
  log : ∃ l, w'.log = w.log ++ l ∧ w'.machine.steps = w.machine.steps + l.length ∧
    (w.depth = calls.length → w.depth ≤ limit → ∀ moment ∈ l, moment.Counted calls limit)

namespace Watched.Follows

variable {calls : List FunctionDecl} {limit : Nat} {w w₁ w₂ : Watched}

theorem refl (w : Watched) : w.Follows calls limit w :=
  ⟨rfl, List.prefix_rfl, [], by simp, rfl, fun _ _ _ h => nomatch h⟩

theorem trans (h : w.Follows calls limit w₁) (h' : w₁.Follows calls limit w₂) :
    w.Follows calls limit w₂ := by
  obtain ⟨l, hl, hsteps, hmoments⟩ := h.log
  obtain ⟨l', hl', hsteps', hmoments'⟩ := h'.log
  refine ⟨h'.depth.trans h.depth, h.output.trans h'.output, l ++ l', ?_, ?_, ?_⟩
  · rw [hl', hl, List.append_assoc]
  · rw [hsteps', hsteps, List.length_append]
    omega
  · intro hcalls hlimit moment hmem
    rcases List.mem_append.mp hmem with hmem | hmem
    · exact hmoments hcalls hlimit moment hmem
    · exact hmoments' (h.depth ▸ hcalls) (h.depth ▸ hlimit) moment hmem

/-- what follows inside a call follows outside of it, once the call is over -/
theorem inside {decl : FunctionDecl} (hlimit : w.depth < limit)
    (h : Follows (decl :: calls) limit { w with depth := w.depth + 1 } w₁) :
    w.Follows calls limit { w₁ with depth := w₁.depth - 1 } := by
  obtain ⟨l, hl, hsteps, hmoments⟩ := h.log
  refine ⟨?_, h.output, l, hl, hsteps, ?_⟩
  · have hdepth : w₁.depth = w.depth + 1 := h.depth
    show w₁.depth - 1 = w.depth
    omega
  · intro hcalls _ moment hmem
    have hinside : w.depth + 1 = (decl :: calls).length := by rw [hcalls, List.length_cons]
    have hcounted := hmoments hinside hlimit moment hmem
    exact { hcounted with calls_suffix := (List.suffix_cons decl calls).trans hcounted.calls_suffix }

end Watched.Follows

namespace Watch

variable {α β : Type} {v : Vantage} {w : Watched}

/-- a watched evaluation that keeps what a watched run keeps -/
def Keeps (x : Watch α) (v : Vantage) (w : Watched) : Prop :=
  w.Follows v.calls v.env.config.maxCallDepth (x.outcome v w).2

theorem Keeps.bind {x : Watch α} {f : α → Watch β} (hx : x.Keeps v w)
    (hf : ∀ a w₁, x.outcome v w = (.ok a, w₁) → (f a).Keeps v w₁) : (x >>= f).Keeps v w := by
  unfold Keeps at hx ⊢
  rw [outcome_bind]
  rcases ho : x.outcome v w with ⟨_ | a, w₁⟩
  · rwa [ho] at hx
  · rw [ho] at hx
    exact hx.trans (hf a w₁ ho)

theorem keeps_step {p : Eval α} (hp : p.Plain) : (step p : Watch α).Keeps v w :=
  ⟨rfl, hp.output_grows v.env w.machine, [], by simp [outcome_step],
    hp.steps_eq v.env w.machine, fun _ _ _ h => nomatch h⟩

theorem keeps_refuseCall (loc : Location) : (step (refuseCall loc) : Watch SlotId).Keeps v w :=
  ⟨rfl, List.prefix_rfl, [], by simp [outcome_step], rfl, fun _ _ _ h => nomatch h⟩

theorem keeps_start (c : ScopeId) (loc : Location) : (start c loc : Watch Unit).Keeps v w := by
  unfold Keeps
  rw [outcome_start]
  refine ⟨rfl, List.prefix_rfl, [⟨loc, v.calls, w.depth⟩], rfl, rfl, ?_⟩
  intro hcalls hlimit moment hmem
  obtain rfl := List.mem_singleton.mp hmem
  exact ⟨List.suffix_rfl, hcalls, hlimit⟩

theorem keeps_inside {decl : FunctionDecl} {x : Watch α}
    (hlimit : w.depth < v.env.config.maxCallDepth)
    (hx : x.Keeps { v with calls := decl :: v.calls } { w with depth := w.depth + 1 }) :
    (inside decl x).Keeps v w :=
  Watched.Follows.inside hlimit hx

/-- every watched evaluation keeps what a watched run keeps; only the one on the right is looked
at, so that this can be added to other comparisons -/
def keeping : Lockstep Watch Watch where
  rel V _ y := ∀ v w, y.Keeps v w ∧ ∀ b, (y.outcome v w).1 = .ok b → ∃ a, V a b
  pure {_ _ a b} h v w := by
    refine ⟨.refl w, fun c hc => ?_⟩
    obtain rfl : b = c := Except.ok.inj hc
    exact ⟨a, h⟩
  bind {_ _ _ _ _ y _ g} hy hg v w := by
    obtain ⟨hkeeps, hresult⟩ := hy v w
    refine ⟨hkeeps.bind fun b w₁ ho => ?_, fun c hc => ?_⟩
    · obtain ⟨a, hab⟩ := hresult b (by rw [ho])
      exact (hg a b hab v w₁).1
    · rw [outcome_bind] at hc
      rcases ho : y.outcome v w with ⟨_ | b, w₁⟩
      · rw [ho] at hc
        cases hc
      · rw [ho] at hc
        obtain ⟨a, hab⟩ := hresult b (by rw [ho])
        exact (hg a b hab v w₁).2 c hc
  holding refs hy v w := hy { v with env.held := refs ++ v.env.held } w
  start c l v w := ⟨keeps_start c l, fun b _ => ⟨b, rfl⟩⟩
  step {_ _ p} hp hV v w := by
    refine ⟨keeps_step hp, fun b hb => ⟨b, hV v.env w.machine b ?_⟩⟩
    rw [outcome_step] at hb
    exact mapError_eq_ok hb

theorem keeps_execute {next : Invoke Watch} (hnext : keeping.simulation.Invokes next next)
    (refs : List Ref) (scope : ScopeId) (block : Block) :
    (holding refs (execute next scope block) : Watch Flow).Keeps v w :=
  (keeping.simulation.holding (w := ()) refs
    (keeping.simulation.execute hnext trivial block.alike_self) v w).1

theorem keeps_runBody {next : Invoke Watch} (hnext : keeping.simulation.Invokes next next)
    (decl : FunctionDecl) (home scope : ScopeId) (hlimit : w.depth < v.env.config.maxCallDepth) :
    (runBody next decl home scope).Keeps v w :=
  Keeps.bind (keeps_inside hlimit (keeps_execute hnext _ scope decl.body)) fun _ _ _ =>
    keeps_step (.resultSlot scope)

/-- a call keeps what a watched run keeps, however far it is followed -/
theorem keeping_invoke (fuel : Nat) : keeping.simulation.Invokes (invoke fuel) (invoke fuel) := by
  induction fuel with
  | zero =>
    intro _ _ _ _ _ _ args _ _ _ v w
    exact ⟨.refl w, fun a ha => nomatch ha⟩
  | succ fuel ih =>
    intro _ _ d home _ l args _ _ _ v w
    refine ⟨?_, fun a _ => ⟨a, rfl⟩⟩
    unfold Keeps
    rw [outcome_invoke]
    split
    · rename_i hlimit
      refine (keeps_step (.enter d home args)).bind fun scope w₁ h₁ => ?_
      have hdepth : w₁.depth = w.depth := congrArg (fun o => o.2.depth) h₁.symm
      exact keeps_runBody ih d home scope (hdepth ▸ hlimit)
    · exact keeps_refuseCall l

/-! ## what is left when nobody watches -/

/-- a watched outcome, finished and with the count of calls at `depth`, agrees with an ordinary
one -/
inductive Agrees (depth : Nat) (V : α → α → Prop) :
    Except Halt α × Watched → Except RuntimeError α × Machine → Prop
  | ok {a b w} : w.depth = depth → V a b → Agrees depth V (.ok a, w) (.ok b, w.machine)
  | error {e w} : w.depth = depth → Agrees depth V (.error (.error e), w) (.error e, w.machine)

theorem Agrees.finished {depth : Nat} {V : α → α → Prop} {o : Except Halt α × Watched}
    {o' : Except RuntimeError α × Machine} (h : Agrees depth V o o') : o.1 ≠ .error .unfinished := by
  cases h <;> simp

theorem Agrees.result {depth : Nat} {o : Except Halt α × Watched}
    {o' : Except RuntimeError α × Machine} (h : Agrees depth Eq o o') :
    o.1 = o'.1.mapError .error := by
  cases h with
  | ok _ hab => rw [hab]; rfl
  | error => rfl

theorem Agrees.machine {depth : Nat} {V : α → α → Prop} {o : Except Halt α × Watched}
    {o' : Except RuntimeError α × Machine} (h : Agrees depth V o o') : o.2.machine = o'.2 := by
  cases h <;> rfl

theorem agrees_step {V : α → α → Prop} {p : Eval α}
    (hV : ∀ a, (p.outcome v.env w.machine).1 = .ok a → V a a) :
    Agrees w.depth V ((step p : Watch α).outcome v w) (p.outcome v.env w.machine) := by
  rw [outcome_step]
  rcases ho : p.outcome v.env w.machine with ⟨e | a, m⟩
  · exact .error (w := { w with machine := m }) rfl
  · exact .ok (w := { w with machine := m }) rfl (hV a (by rw [ho]))

/-- a watched evaluation, with `limit` calls allowed and `depth` of them in progress, is finished
and leaves what an ordinary one leaves -/
def Erases (limit depth : Nat) (V : α → α → Prop) (x : Watch α) (y : Eval α) : Prop :=
  ∀ (v : Vantage) (w : Watched), v.env.config.maxCallDepth = limit → w.depth = depth →
    Agrees depth V (x.outcome v w) (y.outcome v.env w.machine)

namespace Erases

variable {limit depth : Nat} {V : α → α → Prop} {U : β → β → Prop} {x : Watch α} {y : Eval α}

theorem bind {f : α → Watch β} {g : α → Eval β} (hx : Erases limit depth V x y)
    (hf : ∀ a b, V a b → Erases limit depth U (f a) (g b)) :
    Erases limit depth U (x >>= f) (y >>= g) := by
  intro v w hlimit hdepth
  have hxy := hx v w hlimit hdepth
  rw [outcome_bind, Eval.outcome_bind]
  generalize x.outcome v w = o at hxy ⊢
  generalize y.outcome v.env w.machine = o' at hxy ⊢
  cases hxy with
  | @ok a b w₁ hdepth₁ hab => exact hf a b hab v w₁ hlimit hdepth₁
  | error hdepth₁ => exact .error hdepth₁

theorem holding (refs : List Ref) (hx : Erases limit depth V x y) :
    Erases limit depth V (holding refs x) (holding refs y) :=
  fun v w hlimit hdepth => hx { v with env.held := refs ++ v.env.held } w hlimit hdepth

theorem step {p : Eval α} (hV : ∀ env m a, (p.outcome env m).1 = .ok a → V a a) :
    Erases limit depth V (step p) p := by
  rintro v w - rfl
  exact agrees_step (hV v.env w.machine)

theorem start (c : ScopeId) (loc : Location) :
    Erases limit depth Eq (start c loc) (start c loc) := by
  rintro v w - rfl
  exact agrees_step (p := countStep loc) (w := { w with log := w.log ++ [⟨loc, v.calls, w.depth⟩] })
    fun _ _ => rfl

theorem inside (decl : FunctionDecl) (hx : Erases limit (depth + 1) V x y) :
    Erases limit depth V (inside decl x) y := by
  rintro v w hlimit rfl
  have hxy := hx { v with calls := decl :: v.calls } { w with depth := w.depth + 1 } hlimit rfl
  rw [outcome_inside]
  generalize x.outcome _ _ = o at hxy ⊢
  generalize y.outcome _ _ = o' at hxy ⊢
  cases hxy with
  | @ok a b w₁ hdepth hab =>
    exact .ok (w := { w₁ with depth := w₁.depth - 1 }) (by simp [hdepth]) hab
  | @error e w₁ hdepth =>
    exact .error (w := { w₁ with depth := w₁.depth - 1 }) (by simp [hdepth])

end Erases

/-- watched evaluations beside ordinary ones -/
def erasing (limit depth : Nat) : Lockstep Watch Eval where
  rel := Erases limit depth
  pure h _ _ _ hdepth := .ok hdepth h
  bind := Erases.bind
  holding := Erases.holding
  start := Erases.start
  step _ := Erases.step

/-- with more fuel than calls that are still allowed, a watched call is finished -/
theorem erasing_invoke {limit : Nat} (n : Nat) {depth fuel : Nat} (hlimit : depth + n = limit)
    (hfuel : n < fuel) :
    (erasing limit depth).simulation.Invokes (invoke fuel) (Eval.invoke n) := by
  induction n generalizing depth fuel with
  | zero =>
    -- as many calls are in progress as are allowed, so both refuse
    intro _ d d' home l l' args hd _ hl v w hv hw
    obtain ⟨fuel, rfl⟩ := Nat.exists_eq_succ_of_ne_zero hfuel.ne'
    obtain rfl : l = l' := hl
    have hfull : ¬ w.depth < v.env.config.maxCallDepth := by omega
    rw [outcome_invoke, if_neg hfull]
    exact Erases.step (fun _ _ _ _ => rfl) v w hv hw
  | succ n ih =>
    intro _ d d' home l l' args hd _ hl v w hv hw
    obtain ⟨fuel, rfl⟩ := Nat.exists_eq_succ_of_ne_zero (Nat.ne_zero_of_lt hfuel)
    obtain rfl := hd.eq
    have hfree : w.depth < v.env.config.maxCallDepth := by omega
    rw [outcome_invoke, if_pos hfree]
    -- in the body one call more is in progress and one fewer is left
    have hnext : (erasing limit (depth + 1)).simulation.Invokes (invoke fuel) (Eval.invoke n) :=
      ih (by omega) (by omega)
    refine Erases.bind (Erases.step fun _ _ _ _ => rfl) ?_ v w hv hw
    rintro scope _ rfl
    refine Erases.bind (V := Eq) (Erases.inside d (Erases.holding _ ?_)) ?_
    · exact (erasing limit (depth + 1)).simulation.execute (w := ()) hnext trivial d.body.alike_self
    · rintro _ _ -
      exact Erases.step fun _ _ _ _ => rfl

/-- wherever a run has got, the execution of a block is finished when the fuel is more than the
calls that are still allowed -/
theorem execute_finished {fuel : Nat} {v : Vantage} {w : Watched}
    (hdepth : w.depth ≤ v.env.config.maxCallDepth)
    (hfuel : v.env.config.maxCallDepth - w.depth < fuel) (scope : ScopeId) (block : Block) :
    ((execute (invoke fuel) scope block).outcome v w).1 ≠ .error .unfinished := by
  have hinvoke := erasing_invoke (v.env.config.maxCallDepth - w.depth)
    (Nat.add_sub_cancel' hdepth) hfuel
  have hexecute : Erases v.env.config.maxCallDepth w.depth Eq (execute (invoke fuel) scope block)
      (execute (Eval.invoke (v.env.config.maxCallDepth - w.depth)) scope block) :=
    (erasing _ w.depth).simulation.execute (w := ()) hinvoke trivial block.alike_self
  exact (hexecute v w rfl rfl).finished

/-! ## whole runs -/

/-- a watched run of a block from the outside, where no call is in progress -/
def run (fuel : Nat) (scope : ScopeId) (block : Block) (env : Env) (m : Machine) :
    Except Halt Unit × Watched :=
  (runWith (invoke fuel) scope block).outcome ⟨env, []⟩ ⟨m, 0, []⟩

theorem follows_run (fuel : Nat) (scope : ScopeId) (block : Block) (env : Env) (m : Machine) :
    Watched.Follows [] env.config.maxCallDepth ⟨m, 0, []⟩ (run fuel scope block env m).2 :=
  (keeping.simulation.runWith (w := ()) (keeping_invoke fuel) trivial block.alike_self
    ⟨env, []⟩ ⟨m, 0, []⟩).1

/-- the log of a run that starts with no statement counted has an entry for every statement -/
theorem length_log_run (fuel : Nat) (scope : ScopeId) (block : Block) (env : Env) (store : Store)
    (output : Array Value) :
    (run fuel scope block env ⟨store, 0, output⟩).2.log.length
      = (run fuel scope block env ⟨store, 0, output⟩).2.machine.steps := by
  obtain ⟨l, hlog, hsteps, -⟩ := (follows_run fuel scope block env ⟨store, 0, output⟩).log
  rw [hlog, hsteps]
  simp

/-- with more fuel than calls that are allowed, a watched run is finished and leaves what the
ordinary run leaves -/
theorem run_eq {fuel : Nat} (env : Env) (hfuel : env.config.maxCallDepth < fuel)
    (scope : ScopeId) (block : Block) (m : Machine) :
    (run fuel scope block env m).1 = ((runBlock scope block).outcome env m).1.mapError .error ∧
      (run fuel scope block env m).2.machine = ((runBlock scope block).outcome env m).2 := by
  have hinvoke := erasing_invoke env.config.maxCallDepth (Nat.zero_add _) hfuel
  have hrun : Erases env.config.maxCallDepth 0 Eq (runWith (invoke fuel) scope block)
      (runWith (Eval.invoke env.config.maxCallDepth) scope block) :=
    (erasing _ 0).simulation.runWith (w := ()) hinvoke trivial block.alike_self
  have hagrees : Agrees 0 Eq (run fuel scope block env m) _ := hrun ⟨env, []⟩ ⟨m, 0, []⟩ rfl rfl
  rw [outcome_runBlock]
  exact ⟨hagrees.result, hagrees.machine⟩

end Watch

end PageScript
