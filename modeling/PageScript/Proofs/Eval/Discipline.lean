import PageScript.Proofs.Eval.Traced
import PageScript.Proofs.Store.Nested
import PageScript.Proofs.Value.Computed

/-!
# What a run keeps to

A discipline says what the stores of a run are like, what a single step may do to a store, and what
is known of the things that expressions yield: of values, of the slots that are passed and
returned, of the slots that names lead to, and of the functions that are called.  What is known
stays known while the store goes on (`Discipline.le`).

Asked of a discipline is one thing for every kind of step.  Then every evaluation keeps to it, in
every scope that is fit to run code in (`Discipline.eval`, `Discipline.execute`,
`Discipline.runWith`, with one lemma for every function of the evaluator on the way), and so does a
whole run (`Discipline.run`): every step of its trace is one that the discipline admits, every
statement starts at a moment that it admits, and if the run fails, then with an error that it
admits.

* `Store.Change`        what a step of a run does to the store;
* `Discipline.Path`     a trace that keeps to the discipline;
* `Discipline.Keeps`    an evaluation that does.
-/

set_option linter.unusedSectionVars false

namespace PageScript

open Eval Runner

/-! ## steps of a run -/

/-- what a step of a run of a block does to the store: the declarations of the block take effect in
its scope, an instance of a class of the store is created, a function of the store is entered with
the slots of its arguments, or nothing of the kind happens and the change is a quiet one -/
inductive Store.Change (block : Block) (top : ScopeId) (passed : Store → SlotId → Prop)
    (quiet : Store → Store → Prop) (before : Store) : Store → Prop
  | quiet {after : Store} : quiet before after → Change block top passed quiet before after
  | hoist : Change block top passed quiet before (block.hoist top before)
  | newInstance {home : ScopeId} {name : String} {d : ClassDecl} :
    (before.scope home).classes.find? name = some d →
    Change block top passed quiet before (before.newInstance d home).2
  | enter {id : FunctionId} {d : FunctionDecl} {home : ScopeId} {args : List SlotId}
    (byRef : Bool) : before.function id = .script d home → (∀ arg ∈ args, passed before arg) →
    Change block top passed quiet before (activate byRef d home args before).2

/-! ## what is held -/

/-- more things are held, but no more scopes -/
structure HoldsMore (held held' : List Ref) : Prop where
  all : ∀ r ∈ held, r ∈ held'
  scopes : ∀ p, .scope p ∈ held' → .scope p ∈ held

namespace HoldsMore

variable {held : List Ref}

theorem refl (held : List Ref) : HoldsMore held held := ⟨fun _ hr => hr, fun _ hp => hp⟩

theorem append {refs : List Ref} (hrefs : ∀ p, .scope p ∉ refs) : HoldsMore held (refs ++ held) :=
  ⟨fun _ hr => List.mem_append_right _ hr,
    fun p hp => (List.mem_append.mp hp).resolve_left (hrefs p)⟩

theorem refs (v : Value) : HoldsMore held (v.refs ++ held) := by
  refine append fun p hp => ?_
  cases v <;> simp [Value.refs] at hp

theorem slots (args : List SlotId) : HoldsMore held (args.map .slot ++ held) :=
  append fun p hp => by simp at hp

theorem slot (id : SlotId) : HoldsMore held ([.slot id] ++ held) := slots [id]

theorem member (o : ObjectId) (id : SlotId) : HoldsMore held ([.object o, .slot id] ++ held) :=
  append fun p hp => by simp at hp

end HoldsMore

/-- the page holds no scopes -/
theorem Env.scope_mem_heldIn {env : Env} {m : Machine} {p : ScopeId}
    (hp : .scope p ∈ env.heldIn m) : .scope p ∈ env.held := by
  unfold heldIn at hp
  split at hp
  · refine (List.mem_append.mp hp).resolve_right fun hmem => ?_
    obtain ⟨v, -, hv⟩ := List.mem_flatMap.mp hmem
    cases v <;> simp [Value.refs] at hv
  · exact hp

/-- a scope counts as present while things are held, among them no more scopes than those -/
def Store.Present (s : Store) (held : List Ref) (c : ScopeId) : Prop :=
  ∃ H, (∀ p, .scope p ∈ H → .scope p ∈ held) ∧ s.alive H (.scope c) = true

/-! ## what actions on variables do -/

/-- what a search of scopes has found, it has found in a scope that is alive -/
theorem Store.alive_of_search {α : Type} (s : Store) {held : List Ref} {here : ScopeId → Option α}
    {ids : List ScopeId} {a : α} (h : s.search held here ids = .ok (some a)) :
    ∃ p ∈ ids, here p = some a ∧ s.alive held (.scope p) = true := by
  induction ids with
  | nil => cases h
  | cons id ids ih =>
    rw [search] at h
    split at h
    · rename_i halive
      split at h
      · rename_i hhere
        obtain rfl := Option.some.inj (Except.ok.inj h)
        exact ⟨id, List.mem_cons_self, hhere, halive⟩
      · obtain ⟨p, hp, hfound⟩ := ih h
        exact ⟨p, List.mem_cons_of_mem _ hp, hfound⟩
    · cases h

/-- a search finds something in the scope where it starts, or in one around that is alive -/
theorem Store.alive_of_searchFrom {α : Type} (s : Store) {held : List Ref}
    {here : ScopeId → Option α} {c : ScopeId} {a : α}
    (h : s.searchFrom held here c = .ok (some a)) :
    ∃ p, here p = some a ∧ (p = c ∨ p ∈ (s.scope c).outer ∧ s.alive held (.scope p) = true) := by
  unfold searchFrom at h
  split at h
  · rename_i hhere
    obtain rfl := Option.some.inj (Except.ok.inj h)
    exact ⟨c, hhere, .inl rfl⟩
  · obtain ⟨p, hp, hhere, halive⟩ := s.alive_of_search h
    exact ⟨p, hhere, .inr ⟨hp, halive⟩⟩

theorem Store.search_eq_error {α : Type} (s : Store) {held : List Ref} {here : ScopeId → Option α}
    {ids : List ScopeId} {f : RuntimeFault} (h : s.search held here ids = .error f) :
    f = .scopeDropped ∧ ∃ p ∈ ids, s.alive held (.scope p) = false := by
  induction ids with
  | nil => cases h
  | cons id ids ih =>
    rw [search] at h
    split at h
    · split at h
      · cases h
      · obtain ⟨hf, p, hp, hdropped⟩ := ih h
        exact ⟨hf, p, List.mem_cons_of_mem _ hp, hdropped⟩
    · rename_i hdropped
      exact ⟨(Except.error.inj h).symm, id, by simp, Bool.eq_false_iff.mpr hdropped⟩

/-- a search only fails at a scope around that is gone -/
theorem Store.searchFrom_eq_error {α : Type} (s : Store) {held : List Ref}
    {here : ScopeId → Option α} {c : ScopeId} {f : RuntimeFault}
    (h : s.searchFrom held here c = .error f) :
    f = .scopeDropped ∧ ∃ p ∈ (s.scope c).outer, s.alive held (.scope p) = false := by
  unfold searchFrom at h
  split at h
  · cases h
  · exact s.search_eq_error h

namespace Action

theorem outcome_lookup (use : Use) (c : ScopeId) (n : String) (held : List Ref) (s : Store) :
    (lookup use c n).outcome held s
      = match s.find held use n c with
        | .error f => (.error f, s)
        | .ok none => (.ok none, s)
        | .ok (some (.slot slot)) => (.ok (some slot), s)
        | .ok (some (.owner o)) =>
          (.ok (some (s.newSlot (.object o)).1), (s.newSlot (.object o)).2) := by
  rw [lookup, outcome_bind, outcome_ask]
  rcases s.find held use n c with f | _ | slot | o <;> rfl

theorem outcome_resolve (c : ScopeId) (n : String) (held : List Ref) (s : Store) :
    (resolve c n).outcome held s
      = match s.find held .variable n c with
        | .error f => (.error f, s)
        | .ok none =>
          if (s.scope c).isExplicit then (.error (.undeclared n), s)
          else (.ok (s.declare c n .empty).1, (s.declare c n .empty).2)
        | .ok (some (.slot slot)) => (.ok slot, s)
        | .ok (some (.owner o)) => (.ok (s.newSlot (.object o)).1, (s.newSlot (.object o)).2) := by
  rw [resolve, outcome_bind, outcome_lookup]
  rcases s.find held .variable n c with f | _ | slot | o
  · rfl
  · show outcome (if (s.scope c).isExplicit then throw (.undeclared n)
      else change (·.declare c n .empty)) held s = _
    split <;> rfl
  · rfl
  · rfl

theorem outcome_assign (c : ScopeId) (n : String) (v : Value) (held : List Ref) (s : Store) :
    (assign c n v).outcome held s
      = match (resolve c n).outcome held s with
        | (.ok slot, s₁) => (.ok (), s₁.setSlot slot v)
        | (.error f, s₁) => (.error f, s₁) := by
  rw [assign, outcome_bind]
  rcases (resolve c n).outcome held s with ⟨f | slot, s₁⟩ <;> rfl

end Action

/-! ## disciplines -/

/-- what runs keep to, with what is asked of every kind of step -/
structure Discipline where
  /-- what a run is given, apart from what is held -/
  env : Env
  /-- the block that is run, and its scope -/
  block : Block
  top : ScopeId
  /-- what every store is like -/
  ok : Store → Prop
  /-- how stores come after one another -/
  le : Store → Store → Prop
  le_refl : ∀ s, le s s
  le_trans : ∀ {s s₁ s₂}, le s s₁ → le s₁ s₂ → le s s₂
  /-- what a step may do that neither declares, creates nor enters anything -/
  quiet : Store → Store → Prop
  quiet_refl : ∀ s, quiet s s
  quiet_trans : ∀ {s s₁ s₂}, quiet s s₁ → quiet s₁ s₂ → quiet s s₂
  /-- what a step may do where routines of the host are called, too -/
  hosted : Store → Store → Prop := quiet
  hosted_quiet : ∀ {s s'}, quiet s s' → hosted s s' := by exact fun h => h
  /-- scopes that are fit to run code in while things are held -/
  scope : List Ref → Store → ScopeId → Prop
  scope_mono : ∀ {held held' s s' c}, HoldsMore held held' → le s s' →
    scope held s c → scope held' s' c
  /-- values that expressions yield -/
  value : Store → Value → Prop
  value_mono : ∀ {s s' v}, le s s' → value s v → value s' v
  value_data : ∀ {s v}, v.isReference = false → value s v
  /-- slots that are passed and returned -/
  slot : Store → SlotId → Prop
  slot_mono : ∀ {s s' id}, le s s' → slot s id → slot s' id
  value_slot : ∀ {s id}, ok s → slot s id → value s (s.slot id)
  /-- slots that the names in a scope lead to -/
  place : Store → ScopeId → SlotId → Prop
  place_slot : ∀ {s c id}, slot s id → place s c id
  slot_place : ∀ {s c id}, ok s → place s c id → (∀ f, s.slot id ≠ .function f) → slot s id
  /-- functions that may be called in a scope -/
  callable : Store → ScopeId → FunctionId → Prop
  callable_mono : ∀ {s s' c f}, le s s' → callable s c f → callable s' c f
  callable_place : ∀ {s c id f}, ok s → place s c id → s.slot id = .function f → callable s c f
  callable_value : ∀ {s c f}, value s (.function f) → callable s c f
  /-- moments at which statements start in a scope -/
  moment : List Ref → Store → ScopeId → Prop
  admit_start : ∀ {held} {m : Machine} {c}, ok m.store → scope held m.store c →
    moment ({ env with held }.heldIn m) m.store c
  /-- errors, and the machines that they leave -/
  error : List Ref → Machine → RuntimeError → Prop
  error_mono : ∀ {held held' m e}, (∀ r ∈ held, r ∈ held') → error held' m e → error held m e
  error_other : ∀ {held m l f}, f ≠ .scopeDropped → error held m ⟨l, f⟩
  error_outer : ∀ {held} {m : Machine} {c p l}, ok m.store → scope held m.store c →
    p ∈ (m.store.scope c).outer → m.store.alive ({ env with held }.heldIn m) (.scope p) = false →
    error held m ⟨l, .scopeDropped⟩
  error_home : ∀ {held} {m : Machine} {c f l}, ok m.store → scope held m.store c →
    callable m.store c f →
    m.store.alive ({ env with held }.heldIn m) (.scope (homeOf (m.store.function f))) = false →
    error held m ⟨l, .scopeDropped⟩
  /-- a slot that a name stands for -/
  place_found : ∀ {held H s c use n id}, ok s → scope held s c →
    s.find H use n c = .ok (some (.slot id)) → place s c id
  /-- the instance that `me` stands for -/
  value_owner : ∀ {held H s c use n o}, ok s → scope held s c →
    s.find H use n c = .ok (some (.owner o)) → value s (.object o)
  /-- a member of an object -/
  place_member : ∀ {s c o n id}, ok s → value s (.object o) → s.field? o n = some id → place s c id
  admit_newSlot : ∀ {s v}, ok s → value s v → (ok (s.newSlot v).2 ∧ le s (s.newSlot v).2 ∧
    quiet s (s.newSlot v).2) ∧ slot (s.newSlot v).2 (s.newSlot v).1
  admit_setSlot : ∀ {s c id v}, ok s → place s c id → value s v →
    ok (s.setSlot id v) ∧ le s (s.setSlot id v) ∧ quiet s (s.setSlot id v)
  /-- a variable that is declared on the spot -/
  admit_declare : ∀ {held s c n}, ok s → scope held s c → (s.scope c).isExplicit = false →
    (ok (s.declare c n .empty).2 ∧ le s (s.declare c n .empty).2 ∧
      quiet s (s.declare c n .empty).2) ∧ place (s.declare c n .empty).2 c (s.declare c n .empty).1
  admit_define : ∀ {s o n v}, ok s → value s (.object o) → s.isInstance o = false → value s v →
    ok (s.define o n v).2 ∧ le s (s.define o n v).2 ∧ quiet s (s.define o n v).2
  admit_hoist : ∀ {held s}, ok s → scope held s top →
    ok (block.hoist top s) ∧ le s (block.hoist top s)
  /-- an instance of a class that a present scope has; its initialisation is called while it is
  held, with its own scope and the one of the class -/
  admit_newInstance : ∀ {held s c home n d}, ok s → scope held s c →
    home ∈ c :: (s.scope c).outer → home = c ∨ s.Present held home →
    (s.scope home).classes.find? n = some d →
    let made := s.newInstance d home
    (ok made.2 ∧ le s made.2) ∧ value made.2 (.object made.1.1) ∧
      scope ([.scope home, .scope made.1.2, .object made.1.1] ++ held) made.2 c
  admit_enter : ∀ {held s c f d home args}, ok s → scope held s c → callable s c f →
    s.function f = .script d home → s.Present held home → (∀ arg ∈ args, slot s arg) →
    let entered := activate env.config.byRef d home args s
    (ok entered.2 ∧ le s entered.2) ∧
      scope (.scope home :: .scope entered.1 :: held) entered.2 entered.1
  /-- the slot of a function's result -/
  slot_result : ∀ {held s c}, ok s → scope held s c → slot s (s.scope c).result
  /-- what a routine of the host does -/
  admit_routine : ∀ (held' : List Ref) {held : List Ref} {m : Machine} {c : ScopeId}
    {f : FunctionId} {n : String} {home : ScopeId} {r : Routine} {args : List SlotId} {l : Location},
    ok m.store → scope held m.store c →
    callable m.store c f → m.store.function f = .host n home r → (∀ arg ∈ args, slot m.store arg) →
    let o := (r.call l home args).outcome { env with held := held' } m
    (ok o.2.store ∧ le m.store o.2.store ∧ hosted m.store o.2.store) ∧
      (∀ v, o.1 = .ok v → value o.2.store v) ∧ ∀ e, o.1 = .error e → e.fault ≠ .scopeDropped

namespace Discipline

variable (D : Discipline) {α β : Type} {held : List Ref} {s : Store}

def given (held : List Ref) : Env := { D.env with held }

/-- what a step of a run may do to the store -/
abbrev Step (before after : Store) : Prop :=
  before.Change D.block D.top D.slot D.hosted after

theorem step_of_quiet {before after : Store} (h : D.quiet before after) : D.Step before after :=
  .quiet (D.hosted_quiet h)

theorem step_refl (s : Store) : D.Step s s := D.step_of_quiet (D.quiet_refl s)

/-- a trace that keeps to the discipline, from one store to another -/
inductive Path : Store → List Event → Store → Prop
  | nil (s : Store) : Path s [] s
  | step {s s₁ s₂ : Store} {l : List Event} : D.Step s s₁ → D.ok s₁ → Path s₁ l s₂ →
    Path s (.step s s₁ :: l) s₂
  | start {s s₂ : Store} {l : List Event} {c : ScopeId} (loc : Location) {H : List Ref} :
    D.moment H s c → Path s l s₂ → Path s (.start c loc H s :: l) s₂

theorem Path.append {D : Discipline} {s s₁ s₂ : Store} {l l' : List Event} (h : D.Path s l s₁)
    (h' : D.Path s₁ l' s₂) : D.Path s (l ++ l') s₂ := by
  induction h with
  | nil _ => exact h'
  | step hstep hok _ ih => exact .step hstep hok (ih h')
  | start loc hmoment _ ih => exact .start loc hmoment (ih h')

/-- what every step keeps, in a store that is as the discipline says, holds all the way -/
theorem Path.invariant {D : Discipline} {I : Store → Prop}
    (hstep : ∀ {s s' : Store}, D.ok s → D.Step s s' → I s → I s') {s s' : Store} {l : List Event}
    (h : D.Path s l s') (hs : D.ok s) (hI : I s) :
    I s' ∧ ∀ e ∈ l, ∀ x ∈ e.stores, D.ok x ∧ I x := by
  induction h with
  | nil _ => exact ⟨hI, fun _ he => nomatch he⟩
  | step hone hok _ ih =>
    have hnext := hstep hs hone hI
    obtain ⟨hlast, hrest⟩ := ih hok hnext
    refine ⟨hlast, fun e he x hx => ?_⟩
    rcases List.mem_cons.mp he with rfl | he
    · rcases List.mem_pair.mp hx with rfl | rfl
      · exact ⟨hs, hI⟩
      · exact ⟨hok, hnext⟩
    · exact hrest e he x hx
  | start _ _ _ ih =>
    obtain ⟨hlast, hrest⟩ := ih hs hI
    refine ⟨hlast, fun e he x hx => ?_⟩
    rcases List.mem_cons.mp he with rfl | he
    · exact List.mem_singleton.mp hx ▸ ⟨hs, hI⟩
    · exact hrest e he x hx

/-- every store on the way is as the discipline says -/
theorem Path.ok {D : Discipline} {s s' x : Store} {l : List Event} {e : Event} (h : D.Path s l s')
    (hs : D.ok s) (he : e ∈ l) (hx : x ∈ e.stores) : D.ok x :=
  ((h.invariant (I := fun _ => True) (fun _ _ _ => trivial) hs trivial).2 e he x hx).1

theorem Path.step_of_mem {D : Discipline} {s s' before after : Store} {l : List Event}
    (h : D.Path s l s') (he : .step before after ∈ l) : D.Step before after := by
  induction h with
  | nil _ => cases he
  | step hstep _ _ ih =>
    rcases List.mem_cons.mp he with heq | he
    · obtain ⟨rfl, rfl⟩ := Event.step.inj heq
      exact hstep
    · exact ih he
  | start _ _ _ ih =>
    rcases List.mem_cons.mp he with heq | he
    · cases heq
    · exact ih he

theorem Path.start_of_mem {D : Discipline} {s s' store : Store} {l : List Event} {c : ScopeId}
    {loc : Location} {H : List Ref} (h : D.Path s l s') (he : .start c loc H store ∈ l) :
    D.moment H store c := by
  induction h with
  | nil _ => cases he
  | step _ _ _ ih =>
    rcases List.mem_cons.mp he with heq | he
    · cases heq
    · exact ih he
  | start _ hmoment _ ih =>
    rcases List.mem_cons.mp he with heq | he
    · obtain ⟨rfl, -, rfl, rfl⟩ := Event.start.inj heq
      exact hmoment
    · exact ih he

/-- an outcome that keeps to the discipline, behind a store and a log -/
structure Kept (held : List Ref) (s : Store) (log : List Event) (Q : Store → α → Prop)
    (o : Except RuntimeError α × Traced) : Prop where
  ok : D.ok o.2.machine.store
  le : D.le s o.2.machine.store
  path : ∃ l, o.2.log = log ++ l ∧ D.Path s l o.2.machine.store
  result : ∀ a, o.1 = .ok a → Q o.2.machine.store a
  error : ∀ e, o.1 = .error e → D.error held o.2.machine e

/-- an evaluation that keeps to the discipline where things are held, from a store on, and yields
what `Q` says -/
def Keeps (held : List Ref) (s : Store) (Q : Store → α → Prop) (x : Trace α) : Prop :=
  ∀ t : Traced, t.machine.store = s → D.ok s → D.Kept held s t.log Q (x.outcome (D.given held) t)

variable {D}

/-! ## putting evaluations together -/

section

variable {Q : Store → α → Prop} {U : Store → β → Prop}

theorem keeps_pure {a : α} (ha : D.ok s → Q s a) : D.Keeps held s Q (pure a : Trace α) := by
  rintro t rfl hok
  refine ⟨hok, D.le_refl _, ⟨[], (List.append_nil _).symm, .nil _⟩, fun b hb => ?_,
    fun e he => nomatch he⟩
  obtain rfl : a = b := Except.ok.inj hb
  exact ha hok

theorem Keeps.bind {x : Trace α} {f : α → Trace β} (hx : D.Keeps held s Q x)
    (hf : ∀ s' a, D.le s s' → D.ok s' → Q s' a → D.Keeps held s' U (f a)) :
    D.Keeps held s U (x >>= f) := by
  rintro t hs hok
  have hkept := hx t hs hok
  rw [Trace.outcome_bind]
  generalize x.outcome (D.given held) t = o at hkept ⊢
  rcases o with ⟨e | a, t₁⟩
  · exact ⟨hkept.ok, hkept.le, hkept.path, fun b hb => (nomatch hb),
      fun e' he' => hkept.error e' (congrArg Except.error (Except.error.inj he'))⟩
  · -- the trace of the rest comes behind the trace of the first part
    have hrest := hf t₁.machine.store a hkept.le hkept.ok (hkept.result a rfl) t₁ rfl hkept.ok
    obtain ⟨l, hl, hpath⟩ := hkept.path
    obtain ⟨l', hl', hpath'⟩ := hrest.path
    exact ⟨hrest.ok, D.le_trans hkept.le hrest.le,
      ⟨l ++ l', by rw [hl', show t₁.log = t.log ++ l from hl, List.append_assoc],
        hpath.append hpath'⟩, hrest.result, hrest.error⟩

theorem Keeps.imp {Q' : Store → α → Prop} {x : Trace α} (hx : D.Keeps held s Q x)
    (hQ : ∀ s' a, D.le s s' → Q s' a → Q' s' a) : D.Keeps held s Q' x := by
  intro t hs hok
  have hkept := hx t hs hok
  exact { hkept with result := fun a ha => hQ _ a hkept.le (hkept.result a ha) }

theorem Keeps.holding {x : Trace α} (refs : List Ref) (hx : D.Keeps (refs ++ held) s Q x) :
    D.Keeps held s Q (holding refs x) := by
  intro t hs hok
  have hkept := hx t hs hok
  have hsubset : ∀ r ∈ held, r ∈ refs ++ held := fun r hr => List.mem_append_right _ hr
  exact ⟨hkept.ok, hkept.le, hkept.path, hkept.result,
    fun e he => D.error_mono hsubset (hkept.error e he)⟩

end

/-! ## single steps -/

theorem keeps_step {p : Eval α} {Q : Store → α → Prop}
    (h : ∀ m : Machine, m.store = s → D.ok s →
      let o := p.outcome (D.given held) m
      (D.ok o.2.store ∧ D.le s o.2.store ∧ D.Step s o.2.store) ∧
        (∀ a, o.1 = .ok a → Q o.2.store a) ∧ ∀ e, o.1 = .error e → D.error held o.2 e) :
    D.Keeps held s Q (step p : Trace α) := by
  rintro t rfl hok
  obtain ⟨⟨hok', hle, hstep⟩, hresult, herror⟩ := h t.machine rfl hok
  rw [Trace.outcome_step]
  exact ⟨hok', hle, ⟨_, rfl, .step hstep hok' (.nil _)⟩, hresult, herror⟩

theorem keeps_reading (f : Store → α) :
    D.Keeps held s (fun s' a => s = s' ∧ f s = a) (step (do return f (← store)) : Trace α) := by
  refine keeps_step ?_
  rintro m rfl hok
  refine ⟨⟨hok, D.le_refl _, D.step_refl _⟩, fun a ha => ⟨rfl, ?_⟩,
    fun e he => nomatch he⟩
  exact Except.ok.inj ha

theorem keeps_getSlot (id : SlotId) :
    D.Keeps held s (fun s' v => s = s' ∧ s.slot id = v) (step (getSlot id) : Trace Value) :=
  keeps_reading (·.slot id)

theorem keeps_member? (o : ObjectId) (n : String) :
    D.Keeps held s (fun s' found => s = s' ∧ s.field? o n = found)
      (step (member? o n) : Trace (Option SlotId)) :=
  keeps_reading (·.field? o n)

theorem keeps_fail {Q : Store → α → Prop} {l : Location} {f : RuntimeFault}
    (hf : f ≠ .scopeDropped) : D.Keeps held s Q (step (fail l f) : Trace α) := by
  refine keeps_step ?_
  rintro m rfl hok
  refine ⟨⟨hok, D.le_refl _, D.step_refl _⟩, fun a ha => (nomatch ha), fun e he => ?_⟩
  obtain rfl : (⟨l, f⟩ : RuntimeError) = e := Except.error.inj he
  exact D.error_other hf

theorem keeps_check {Q : Store → α → Prop} {l : Location} {r : Except RuntimeFault α}
    (hok : ∀ a, r = .ok a → Q s a) (herror : ∀ f, r = .error f → f ≠ .scopeDropped) :
    D.Keeps held s Q (step (check l r) : Trace α) := by
  cases r with
  | error f => exact keeps_fail (herror f rfl)
  | ok a =>
    refine (keeps_reading fun _ => a).imp ?_
    rintro s' _ - ⟨rfl, rfl⟩
    exact hok a rfl

theorem keeps_newSlot {v : Value} (hv : D.value s v) :
    D.Keeps held s D.slot (step (Eval.newSlot v) : Trace SlotId) := by
  refine keeps_step ?_
  rintro m rfl hok
  obtain ⟨⟨hok', hle, hquiet⟩, hslot⟩ := D.admit_newSlot hok hv
  refine ⟨⟨hok', hle, D.step_of_quiet hquiet⟩, fun a ha => ?_, fun e he => nomatch he⟩
  obtain rfl := Except.ok.inj ha
  exact hslot

theorem keeps_setSlot {c : ScopeId} {id : SlotId} {v : Value} (hid : D.place s c id)
    (hv : D.value s v) :
    D.Keeps held s (fun _ _ => True) (step (Eval.setSlot id v) : Trace Unit) := by
  refine keeps_step ?_
  rintro m rfl hok
  obtain ⟨hok', hle, hquiet⟩ := D.admit_setSlot hok hid hv
  exact ⟨⟨hok', hle, D.step_of_quiet hquiet⟩, fun _ _ => trivial, fun e he => nomatch he⟩

theorem keeps_define {o : ObjectId} {n : String} {v : Value} (ho : D.value s (.object o))
    (hinstance : s.isInstance o = false) (hv : D.value s v) :
    D.Keeps held s (fun _ _ => True) (step (change (·.define o n v)) : Trace SlotId) := by
  refine keeps_step ?_
  rintro m rfl hok
  obtain ⟨hok', hle, hquiet⟩ := D.admit_define (n := n) hok ho hinstance hv
  exact ⟨⟨hok', hle, D.step_of_quiet hquiet⟩, fun _ _ => trivial, fun e he => nomatch he⟩

section

variable {c : ScopeId} (hc : D.scope held s c)
include hc

theorem keeps_act {x : Action α} {l : Location} {Q : Store → α → Prop}
    (h : D.ok s → ∀ H, (∀ p, .scope p ∈ H → .scope p ∈ held) → let o := x.outcome H s
      (D.ok o.2 ∧ D.le s o.2 ∧ D.Step s o.2) ∧ (∀ a, o.1 = .ok a → Q o.2 a) ∧
        ∀ f, o.1 = .error f → f ≠ .scopeDropped ∨
          o.2 = s ∧ ∃ p ∈ (s.scope c).outer, s.alive H (.scope p) = false) :
    D.Keeps held s Q (step (act l x) : Trace α) := by
  refine keeps_step ?_
  rintro m rfl hok
  obtain ⟨hnext, hresult, herror⟩ := h hok ((D.given held).heldIn m) fun _ => Env.scope_mem_heldIn
  show (_ ∧ _) ∧ _
  rw [outcome_act]
  refine ⟨hnext, fun a ha => hresult a (mapError_eq_ok ha), fun e he => ?_⟩
  rcases hr : (x.outcome ((D.given held).heldIn m) m.store).1 with f | a
  · rw [hr] at he
    obtain rfl : (⟨l, f⟩ : RuntimeError) = e := Except.error.inj he
    by_cases hf : f = .scopeDropped
    · subst hf
      rcases herror _ hr with hne | ⟨hsame, p, hp, hdropped⟩
      · exact absurd rfl hne
      · show D.error held { m with store := _ } _
        rw [hsame]
        exact D.error_outer hok hc hp hdropped
    · exact D.error_other hf
  · rw [hr] at he
    cases he

theorem keeps_lookup (use : Use) (n : String) (l : Location) :
    D.Keeps held s (fun s' found => ∀ id, found = some id → D.place s' c id)
      (step (act l (Action.lookup use c n)) : Trace (Option SlotId)) := by
  refine keeps_act hc fun hok H _ => ?_
  have hrest : D.ok s ∧ D.le s s ∧ D.Step s s := ⟨hok, D.le_refl _, D.step_refl _⟩
  show (_ ∧ _) ∧ _
  rw [Action.outcome_lookup]
  rcases hfind : s.find H use n c with f | _ | slot | o
  · refine ⟨hrest, fun a ha => (nomatch ha), fun f' _ => .inr ⟨rfl, ?_⟩⟩
    exact (s.searchFrom_eq_error hfind).2
  · refine ⟨hrest, fun a ha => ?_, fun f hf => nomatch hf⟩
    obtain rfl : none = a := Except.ok.inj ha
    exact fun id hid => nomatch hid
  · refine ⟨hrest, fun a ha => ?_, fun f hf => nomatch hf⟩
    obtain rfl : some slot = a := Except.ok.inj ha
    rintro id hid
    obtain rfl : slot = id := Option.some.inj hid
    exact D.place_found hok hc hfind
  · obtain ⟨⟨hok', hle, hquiet⟩, hslot⟩ := D.admit_newSlot hok (D.value_owner hok hc hfind)
    refine ⟨⟨hok', hle, D.step_of_quiet hquiet⟩, fun a ha => ?_, fun f hf => nomatch hf⟩
    obtain rfl := Except.ok.inj ha
    rintro id hid
    obtain rfl := Option.some.inj hid
    exact D.place_slot hslot

/-- what it takes to resolve a variable -/
theorem resolve_spec (n : String) (hok : D.ok s) (H : List Ref) :
    let o := (Action.resolve c n).outcome H s
    (D.ok o.2 ∧ D.le s o.2 ∧ D.quiet s o.2) ∧ (∀ id, o.1 = .ok id → D.place o.2 c id) ∧
      ∀ f, o.1 = .error f → f ≠ .scopeDropped ∨
        o.2 = s ∧ ∃ p ∈ (s.scope c).outer, s.alive H (.scope p) = false := by
  have hrest : D.ok s ∧ D.le s s ∧ D.quiet s s := ⟨hok, D.le_refl _, D.quiet_refl _⟩
  show (_ ∧ _) ∧ _
  rw [Action.outcome_resolve]
  rcases hfind : s.find H .variable n c with f | _ | slot | o
  · refine ⟨hrest, fun a ha => (nomatch ha), fun f' _ => .inr ⟨rfl, ?_⟩⟩
    exact (s.searchFrom_eq_error hfind).2
  · show (_ ∧ _) ∧ _
    by_cases hexplicit : (s.scope c).isExplicit = true
    · simp only [hexplicit, if_true]
      refine ⟨hrest, fun a ha => (nomatch ha), fun f hf => .inl ?_⟩
      obtain rfl : RuntimeFault.undeclared n = f := Except.error.inj hf
      exact fun h => nomatch h
    · obtain ⟨hnext, hplace⟩ := D.admit_declare (n := n) hok hc (Bool.eq_false_iff.mpr hexplicit)
      simp only [hexplicit]
      refine ⟨hnext, fun a ha => ?_, fun f hf => nomatch hf⟩
      obtain rfl := Except.ok.inj ha
      exact hplace
  · refine ⟨hrest, fun a ha => ?_, fun f hf => nomatch hf⟩
    obtain rfl : slot = a := Except.ok.inj ha
    exact D.place_found hok hc hfind
  · obtain ⟨hnext, hslot⟩ := D.admit_newSlot hok (D.value_owner hok hc hfind)
    refine ⟨hnext, fun a ha => ?_, fun f hf => nomatch hf⟩
    obtain rfl := Except.ok.inj ha
    exact D.place_slot hslot

theorem keeps_resolve (n : String) (l : Location) :
    D.Keeps held s (fun s' id => D.place s' c id)
      (step (act l (Action.resolve c n)) : Trace SlotId) := by
  refine keeps_act hc fun hok H _ => ?_
  obtain ⟨⟨hok', hle, hquiet⟩, hrest⟩ := resolve_spec hc n hok H
  exact ⟨⟨hok', hle, D.step_of_quiet hquiet⟩, hrest⟩

theorem keeps_assign (n : String) {v : Value} (hv : D.value s v) (l : Location) :
    D.Keeps held s (fun _ _ => True) (step (act l (Action.assign c n v)) : Trace Unit) := by
  refine keeps_act hc fun hok H _ => ?_
  obtain ⟨⟨hok₁, hle, hquiet⟩, hresult, herror⟩ := resolve_spec hc n hok H
  show (_ ∧ _) ∧ _
  rw [Action.outcome_assign]
  generalize (Action.resolve c n).outcome H s = o at hok₁ hle hquiet hresult herror ⊢
  rcases o with ⟨f | slot, s₁⟩
  · refine ⟨⟨hok₁, hle, D.step_of_quiet hquiet⟩, fun _ _ => trivial, fun f' hf' => ?_⟩
    exact herror f' (congrArg Except.error (Except.error.inj hf'))
  · -- the value goes into the slot that was found, in the same step
    obtain ⟨hok₂, hle₂, hquiet₂⟩ := D.admit_setSlot hok₁ (hresult slot rfl) (D.value_mono hle hv)
    exact ⟨⟨hok₂, D.le_trans hle hle₂, D.step_of_quiet (D.quiet_trans hquiet hquiet₂)⟩,
      fun _ _ => trivial, fun f hf => nomatch hf⟩

theorem keeps_findClass (n : String) (l : Location) :
    D.Keeps held s (fun s' found => s = s' ∧ ∀ d home, found = some (d, home) →
        home ∈ c :: (s.scope c).outer ∧ (home = c ∨ s.Present held home) ∧
          (s.scope home).classes.find? n = some d)
      (step (act l (Action.ask fun s H => s.findClass H n c)) :
        Trace (Option (ClassDecl × ScopeId))) := by
  refine keeps_act hc fun hok H hH => ?_
  show (_ ∧ _) ∧ _
  rw [Action.outcome_ask]
  refine ⟨⟨hok, D.le_refl _, D.step_refl _⟩, fun found hfound => ⟨rfl, ?_⟩,
    fun f hf => .inr ⟨rfl, ?_⟩⟩
  · rintro d home rfl
    obtain ⟨p, hhere, hp⟩ := s.alive_of_searchFrom
      (show s.findClass H n c = .ok (some (d, home)) from hfound)
    obtain ⟨d', hd', heq⟩ := Option.map_eq_some_iff.mp hhere
    obtain ⟨rfl, rfl⟩ := Prod.mk.inj heq
    refine ⟨?_, hp.imp_right fun hp => ⟨H, hH, hp.2⟩, hd'⟩
    exact hp.elim (fun heq => heq ▸ List.mem_cons_self) fun hp => List.mem_cons_of_mem _ hp.1
  · exact (s.searchFrom_eq_error (show s.findClass H n c = .error f from hf)).2

end

/-! ## calls and paths -/

/-- a way to run a script function that keeps to the discipline -/
def Invokes (D : Discipline) (i : Invoke Trace) : Prop :=
  ∀ ⦃held s c f d home args⦄ (l : Location), D.scope held s c → D.callable s c f →
    s.function f = .script d home → s.Present held home → (∀ arg ∈ args, D.slot s arg) →
    D.Keeps held s D.slot (i d home args l)

variable {i : Invoke Trace} (hi : D.Invokes i) {c : ScopeId} (l : Location)
include hi

theorem callIn (hc : D.scope held s c) {f : FunctionId} (hf : D.callable s c f)
    (hhome : s.Present held (homeOf (s.function f))) {args : List SlotId}
    (hargs : ∀ arg ∈ args, D.slot s arg) :
    D.Keeps held s D.slot (callIn i (s.function f) args l) := by
  rcases hfunction : s.function f with ⟨d, home⟩ | ⟨n, home, r⟩
  · rw [hfunction] at hhome
    simp only [Eval.callIn]
    split
    · exact hi l hc hf hfunction hhome hargs
    · exact keeps_fail (by rintro ⟨⟩)
  · refine Keeps.bind (Q := D.value) (Keeps.holding _ (keeps_step ?_)) ?_
    · rintro m rfl hok
      obtain ⟨⟨hok', hle, hquiet⟩, hvalue, herror⟩ :=
        D.admit_routine (l := l) (.scope home :: args.map .slot ++ held) hok hc hf hfunction hargs
      refine ⟨⟨hok', hle, .quiet hquiet⟩, hvalue, fun e he => ?_⟩
      obtain ⟨loc, fault⟩ := e
      exact D.error_other (herror _ he)
    · intro s₁ v _ _ hv
      exact keeps_newSlot hv

omit hi in
/-- a call is refused where the scope of the function is gone -/
theorem keeps_ifAlive {r : Ref} {refs : List Ref} {x : Trace α} {Q : Store → α → Prop}
    (hx : ∀ H, (∀ p, .scope p ∈ H → .scope p ∈ refs ++ held) → s.alive H r = true →
      D.Keeps held s Q x)
    (herror : ∀ m : Machine, m.store = s → D.ok s →
      s.alive ((D.given (refs ++ held)).heldIn m) r = false →
      D.error held m ⟨l, .scopeDropped⟩) :
    D.Keeps held s Q (do
      if ← holding refs (step (isAlive r)) then x else step (fail l .scopeDropped)) := by
  rintro t rfl hok
  have hread : (holding refs (step (isAlive r)) : Trace Bool).outcome (D.given held) t
      = (.ok (t.machine.store.alive ((D.given (refs ++ held)).heldIn t.machine) r),
          ⟨t.machine, t.log ++ [.step t.machine.store t.machine.store]⟩) := by
    show (step (isAlive r) : Trace Bool).outcome (D.given (refs ++ held)) t = _
    rw [Trace.outcome_step, outcome_isAlive]
  rw [Trace.outcome_bind, hread]
  have hpath : ∀ {l' s'}, D.Path t.machine.store l' s' →
      D.Path t.machine.store (.step t.machine.store t.machine.store :: l') s' :=
    .step (D.step_refl _) hok
  cases halive : t.machine.store.alive ((D.given (refs ++ held)).heldIn t.machine) r with
  | true =>
    have hkept := hx _ (fun _ => Env.scope_mem_heldIn) halive
      ⟨t.machine, t.log ++ [.step t.machine.store t.machine.store]⟩ rfl hok
    obtain ⟨l', hl', hrest⟩ := hkept.path
    exact ⟨hkept.ok, hkept.le, ⟨_, hl'.trans (List.append_cons ..).symm, hpath hrest⟩,
      hkept.result, hkept.error⟩
  | false =>
    refine ⟨hok, D.le_refl _, ⟨_, ?_, hpath (hpath (.nil _))⟩, fun a ha => (nomatch ha),
      fun e he => ?_⟩
    · exact List.append_assoc t.log [_] [_]
    · obtain rfl : (⟨l, .scopeDropped⟩ : RuntimeError) = e := Except.error.inj he
      exact herror t.machine rfl hok halive

theorem call (hc : D.scope held s c) {f : FunctionId} (hf : D.callable s c f) {args : List SlotId}
    (hargs : ∀ arg ∈ args, D.slot s arg) : D.Keeps held s D.slot (call i f args l) := by
  refine Keeps.bind (keeps_reading (·.function f)) ?_
  rintro _ _ - - ⟨rfl, rfl⟩
  have hheld : HoldsMore held (args.map Ref.slot ++ held) := .slots args
  refine keeps_ifAlive l (fun H hH halive => ?_) ?_
  · exact callIn hi l hc hf ⟨H, fun p hp => hheld.scopes p (hH p hp), halive⟩ hargs
  · rintro m rfl hok hdropped
    exact D.error_mono hheld.all
      (D.error_home hok (D.scope_mono hheld (D.le_refl _) hc) hf hdropped)

theorem implicitCall (hc : D.scope held s c) {id : SlotId} (hid : D.place s c id) :
    D.Keeps held s D.slot (implicitCall i l id) := by
  refine Keeps.bind (keeps_getSlot id) ?_
  rintro _ _ - hok ⟨rfl, rfl⟩
  cases hv : s.slot id with
  | function f =>
    refine Keeps.holding _ (call hi l (D.scope_mono (.slot id) (D.le_refl _) hc)
      (D.callable_place hok hid hv) ?_)
    exact fun arg harg => nomatch harg
  | _ => exact keeps_pure fun hok => D.slot_place hok hid fun f hf => by rw [hv] at hf; cases hf

theorem objectIn (hc : D.scope held s c) (ns : List String) {id : SlotId} (hid : D.place s c id) :
    D.Keeps held s (fun s' o => D.value s' (.object o)) (objectIn i l ns id) := by
  refine Keeps.bind (implicitCall hi l hc hid) ?_
  intro s₁ id₁ _ hok₁ hid₁
  refine Keeps.bind (keeps_getSlot id₁) ?_
  rintro _ _ - - ⟨rfl, rfl⟩
  have hvalue := D.value_slot hok₁ hid₁
  cases hv : s₁.slot id₁ with
  | object o => exact keeps_pure fun _ => hv ▸ hvalue
  | _ => exact keeps_fail fun h => nomatch h

theorem selectMembers (hc : D.scope held s c) (passed : List String) {id : SlotId}
    (hid : D.place s c id) (ns : List String) :
    D.Keeps held s (fun s' id' => D.place s' c id') (selectMembers i l passed id ns) := by
  induction ns generalizing s passed id with
  | nil => exact keeps_pure fun _ => hid
  | cons n ns ih =>
    refine Keeps.bind (objectIn hi l hc passed hid) ?_
    intro s₁ o h₁ hok₁ ho
    refine Keeps.bind (keeps_member? o n) ?_
    rintro _ _ - - ⟨rfl, rfl⟩
    cases hfound : s₁.field? o n with
    | some slot =>
      exact ih (D.scope_mono (.refl _) h₁ hc) _ (D.place_member hok₁ ho hfound)
    | none => exact keeps_fail fun h => nomatch h

theorem resolvePath (hc : D.scope held s c) (ns : List String) :
    D.Keeps held s (fun s' id => D.place s' c id) (resolvePath i c l ns) := by
  cases ns with
  | nil => exact keeps_fail fun h => nomatch h
  | cons n ns =>
    refine Keeps.bind (keeps_resolve hc n l) ?_
    intro s₁ id h₁ _ hid
    exact selectMembers hi l (D.scope_mono (.refl _) h₁ hc) [n] hid ns

theorem pathSlot (hc : D.scope held s c) (ns : List String) :
    D.Keeps held s D.slot (pathSlot i c l ns) := by
  refine Keeps.bind (resolvePath hi l hc ns) ?_
  intro s₁ id h₁ _ hid
  exact implicitCall hi l (D.scope_mono (.refl _) h₁ hc) hid

/-! ## callees -/

omit hi in
/-- what a slot that a name leads to holds may be called -/
theorem keeps_getCallee {id : SlotId} (hid : D.place s c id) :
    D.Keeps held s (fun s' v => ∀ f, v = .function f → D.callable s' c f)
      (step (getSlot id) : Trace Value) := by
  refine (Keeps.bind (keeps_getSlot id) ?_ : D.Keeps held s _ (step (getSlot id) >>= pure))
  rintro _ _ - - ⟨rfl, rfl⟩
  exact keeps_pure fun hok f hf => D.callable_place hok hid hf

theorem calleeValue (hc : D.scope held s c) (e : Expr) {x : Trace Value}
    (hvalue : D.Keeps held s D.value x) :
    D.Keeps held s (fun s' v => ∀ f, v = .function f → D.callable s' c f)
      (calleeValue i c x e) := by
  have hother : D.Keeps held s (fun s' v => ∀ f, v = .function f → D.callable s' c f) x :=
    hvalue.imp fun s' v _ hv f hf => D.callable_value (hf ▸ hv)
  have hpath : ∀ l ns, D.Keeps held s (fun s' v => ∀ f, v = .function f → D.callable s' c f)
      (do step (getSlot (← Eval.resolvePath i c l ns))) := by
    intro l ns
    refine Keeps.bind (resolvePath hi l hc ns) ?_
    intro s₁ id _ _ hid
    exact keeps_getCallee hid
  match e with
  | .path l [n] =>
    -- a name alone is looked up as a callee
    refine Keeps.bind (keeps_lookup hc .callee n l) ?_
    intro s₁ found _ _ hfound
    cases found with
    | some id => exact keeps_getCallee (hfound id rfl)
    | none =>
      refine Keeps.bind (keeps_reading fun s => (s.scope c).isExplicit) ?_
      rintro _ _ - - ⟨rfl, rfl⟩
      split
      · exact keeps_fail fun h => nomatch h
      · exact keeps_pure fun _ f hf => nomatch hf
  | .path l [] => exact hpath l []
  | .path l (n :: n' :: ns) => exact hpath l (n :: n' :: ns)
  | .literal .. => exact hother
  | .binary .. => exact hother
  | .unary .. => exact hother
  | .call .. => exact hother
  | .new .. => exact hother
  | .paren .. => exact hother

theorem callee (hc : D.scope held s c) (e : Expr) {x : Trace Value}
    (hvalue : D.Keeps held s D.value x) :
    D.Keeps held s (fun s' f => D.callable s' c f) (callee i c e x) := by
  refine Keeps.bind (calleeValue hi hc e hvalue) ?_
  intro s₁ v _ _ hv
  cases v with
  | function f => exact keeps_pure fun _ => hv f rfl
  | _ => exact keeps_fail fun h => nomatch h

/-! ## instances -/

theorem initialise (hc : D.scope held s c) {o : ObjectId} (ho : D.value s (.object o)) :
    D.Keeps held s (fun _ _ => True) (initialise i l o) := by
  refine Keeps.bind (keeps_member? o "class_initialize") ?_
  rintro _ _ - hok ⟨rfl, rfl⟩
  cases hfound : s.field? o "class_initialize" with
  | none => exact keeps_pure fun _ => trivial
  | some id =>
    refine Keeps.bind (keeps_getCallee (c := c) (D.place_member hok ho hfound)) ?_
    intro s₁ v h₁ _ hv
    cases v with
    | function f =>
      have hc₁ := D.scope_mono (.refl _) h₁ hc
      refine Keeps.bind (call hi l hc₁ (hv f rfl) fun arg harg => nomatch harg) ?_
      intro _ _ _ _ _
      exact keeps_pure fun _ => trivial
    | _ => exact keeps_pure fun _ => trivial

theorem instantiate (hc : D.scope held s c) (n : String) :
    D.Keeps held s D.value (instantiate i c l n) := by
  refine Keeps.bind (keeps_findClass hc n l) ?_
  rintro _ found - hok ⟨rfl, hfound⟩
  match found with
  | none => exact keeps_fail fun h => nomatch h
  | some (d, home) =>
    obtain ⟨hhome, hpresent, hd⟩ := hfound d home rfl
    refine Keeps.bind (Q := fun s' p => D.value s' (.object p.1) ∧
      D.scope ([.scope home, .scope p.2, .object p.1] ++ held) s' c) (keeps_step ?_) ?_
    · rintro m rfl hok
      obtain ⟨⟨hok', hle⟩, hmade⟩ := D.admit_newInstance hok hc hhome hpresent hd
      refine ⟨⟨hok', hle, .newInstance hd⟩, fun p hp => ?_, fun e he => nomatch he⟩
      obtain rfl := Except.ok.inj hp
      exact hmade
    · rintro s₁ ⟨o, own⟩ _ _ ⟨ho, hscope⟩
      refine Keeps.bind (Keeps.holding _ (initialise hi l hscope ho)) ?_
      intro s₂ _ h₂ _ _
      exact keeps_pure fun _ => D.value_mono h₂ ho

/-! ## expressions -/

theorem argument (hc : D.scope held s c) (e : Expr) {x : Trace Value}
    (hvalue : D.Keeps held s D.value x) : D.Keeps held s D.slot (argument i c e x) := by
  have hother : D.Keeps held s D.slot (do step (Eval.newSlot (← x))) := by
    refine Keeps.bind hvalue ?_
    intro s₁ v _ _ hv
    exact keeps_newSlot hv
  cases e with
  | path l ns => exact pathSlot hi l hc ns
  | _ => exact hother

omit hi in
theorem value_literal (v : Literal) : D.value s v.value := by
  cases v <;> exact D.value_data rfl

mutual
theorem eval {s : Store} {held : List Ref} (hc : D.scope held s c) :
    ∀ e : Expr, D.Keeps held s D.value (eval i c e)
  | .literal _ v => keeps_pure fun _ => value_literal v
  | .path l ns => by
    refine Keeps.bind (pathSlot hi l hc ns) ?_
    intro s₁ id _ hok₁ hid
    refine (keeps_getSlot id).imp ?_
    rintro _ _ - ⟨rfl, rfl⟩
    exact D.value_slot hok₁ hid
  | .binary l op a b => by
    refine Keeps.bind (eval hc a) ?_
    intro s₁ v h₁ _ _
    refine Keeps.bind (Keeps.holding _ (eval (D.scope_mono (.refs v) h₁ hc) b)) ?_
    intro s₂ w _ _ _
    exact keeps_check (fun r hr => D.value_data (Value.data_of_computed (op.computed_apply v w) hr))
      fun f hf => Value.fault_of_computed (op.computed_apply v w) hf
  | .unary l op a => by
    refine Keeps.bind (eval hc a) ?_
    intro s₁ v _ _ _
    exact keeps_check (fun r hr => D.value_data (Value.data_of_computed (op.computed_apply v) hr))
      fun f hf => Value.fault_of_computed (op.computed_apply v) hf
  | .call l e args => by
    refine Keeps.bind (callee hi hc e (eval hc e)) ?_
    intro s₁ f h₁ _ hf
    have hc₁ := D.scope_mono (.refl _) h₁ hc
    refine Keeps.bind (arguments hc₁ args) ?_
    intro s₂ slots h₂ _ hslots
    refine Keeps.bind (call hi l (D.scope_mono (.refl _) h₂ hc₁)
      (D.callable_mono h₂ hf) hslots) ?_
    intro s₃ id _ hok₃ hid
    refine (keeps_getSlot id).imp ?_
    rintro _ _ - ⟨rfl, rfl⟩
    exact D.value_slot hok₃ hid
  | .new l n => instantiate hi l hc n
  | .paren _ a => by
    rw [Eval.eval]
    exact eval hc a

theorem arguments {s : Store} {held : List Ref} (hc : D.scope held s c) :
    ∀ es : List Expr, D.Keeps held s (fun s' slots => ∀ arg ∈ slots, D.slot s' arg)
      (arguments i c es)
  | [] => keeps_pure fun _ arg harg => nomatch harg
  | e :: es => by
    refine Keeps.bind (argument hi hc e (eval hc e)) ?_
    intro s₁ id h₁ _ hid
    refine Keeps.bind (Keeps.holding _ (arguments (D.scope_mono (.slot id) h₁ hc) es)) ?_
    intro s₂ slots h₂ _ hslots
    refine keeps_pure fun _ arg harg => ?_
    rcases List.mem_cons.mp harg with rfl | harg
    · exact D.slot_mono h₂ hid
    · exact hslots arg harg
end

theorem evalSlot (hc : D.scope held s c) (e : Expr) : D.Keeps held s D.slot (evalSlot i c e) := by
  have hother : D.Keeps held s D.slot (do step (Eval.newSlot (← Eval.eval i c e))) := by
    refine Keeps.bind (eval hi hc e) ?_
    intro s₁ v _ _ hv
    exact keeps_newSlot hv
  cases e with
  | path l ns => exact pathSlot hi l hc ns
  | call l e args =>
    refine Keeps.bind (callee hi hc e (eval hi hc e)) ?_
    intro s₁ f h₁ _ hf
    have hc₁ := D.scope_mono (.refl _) h₁ hc
    refine Keeps.bind (arguments hi hc₁ args) ?_
    intro s₂ slots h₂ _ hslots
    exact call hi l (D.scope_mono (.refl _) h₂ hc₁) (D.callable_mono h₂ hf) hslots
  | _ => exact hother

/-! ## assignment -/

theorem assignMember (hc : D.scope held s c) (target : Location) {o : ObjectId}
    (ho : D.value s (.object o)) (n : String) {v : Value} (hv : D.value s v) :
    D.Keeps held s (fun _ _ => True) (assignMember i target l o n v) := by
  refine Keeps.bind (keeps_member? o n) ?_
  rintro _ _ - hok ⟨rfl, rfl⟩
  cases hfound : s.field? o n with
  | some id =>
    have hid := D.place_member (c := c) hok ho hfound
    refine Keeps.bind (keeps_getSlot id) ?_
    rintro _ _ - - ⟨rfl, rfl⟩
    cases hw : s.slot id with
    | function f =>
      refine Keeps.bind (keeps_newSlot hv) ?_
      intro s₁ arg h₁ _ harg
      have hf := D.callable_mono h₁ (D.callable_place hok hid hw)
      refine Keeps.bind (Keeps.holding _ (call hi l (D.scope_mono (.member o id) h₁ hc) hf ?_)) ?_
      · intro arg' harg'
        obtain rfl := List.mem_singleton.mp harg'
        exact harg
      · intro _ _ _ _ _
        exact keeps_pure fun _ => trivial
    | _ => exact keeps_setSlot hid hv
  | none =>
    refine Keeps.bind (keeps_reading (·.isInstance o)) ?_
    rintro _ _ - - ⟨rfl, rfl⟩
    cases hinstance : s.isInstance o with
    | true => exact keeps_fail fun h => nomatch h
    | false =>
      refine Keeps.bind (keeps_define ho hinstance hv) ?_
      intro _ _ _ _ _
      exact keeps_pure fun _ => trivial

theorem assign (hc : D.scope held s c) {v : Value} (hv : D.value s v) (e : Expr) :
    D.Keeps held s (fun _ _ => True) (assign i c l v e) := by
  have hheld : HoldsMore held (v.refs ++ held) := .refs v
  have hc' := D.scope_mono hheld (D.le_refl s) hc
  match e with
  | .path _ [] => exact keeps_fail fun h => nomatch h
  | .path target [n] => exact Keeps.holding _ (keeps_assign hc' n hv target)
  | .path target (n :: n' :: ns) =>
    refine Keeps.bind (Keeps.holding _ (resolvePath hi target hc' _)) ?_
    intro s₁ id h₁ _ hid
    have hc₁ := D.scope_mono hheld h₁ hc
    refine Keeps.bind (Keeps.holding _ (objectIn hi target hc₁ _ hid)) ?_
    intro s₂ o h₂ _ ho
    have h := D.le_trans h₁ h₂
    exact assignMember hi l (D.scope_mono (.refl _) h hc) target ho _ (D.value_mono h hv)
  | .call _ e args =>
    refine Keeps.bind (Keeps.holding _ (callee hi hc' e (eval hi hc' e))) ?_
    intro s₁ f h₁ _ hf
    refine Keeps.bind (Keeps.holding _ (arguments hi (D.scope_mono hheld h₁ hc) args)) ?_
    intro s₂ slots h₂ _ hslots
    have h := D.le_trans h₁ h₂
    refine Keeps.bind (keeps_newSlot (D.value_mono h hv)) ?_
    intro s₃ last h₃ _ hlast
    have hc₃ := D.scope_mono (.refl _) (D.le_trans h h₃) hc
    refine Keeps.bind (call hi l hc₃ (D.callable_mono (D.le_trans h₂ h₃) hf) ?_) ?_
    · intro arg harg
      rcases List.mem_append.mp harg with harg | harg
      · exact D.slot_mono h₃ (hslots arg harg)
      · obtain rfl := List.mem_singleton.mp harg
        exact hlast
    · intro _ _ _ _ _
      exact keeps_pure fun _ => trivial
  | .literal .. => exact keeps_fail fun h => nomatch h
  | .binary .. => exact keeps_fail fun h => nomatch h
  | .unary .. => exact keeps_fail fun h => nomatch h
  | .new .. => exact keeps_fail fun h => nomatch h
  | .paren .. => exact keeps_fail fun h => nomatch h

/-! ## execution -/

omit hi in
theorem keeps_start (hc : D.scope held s c) :
    D.Keeps held s (fun _ _ => True) (start c l : Trace Unit) := by
  rintro t rfl hok
  have hmoment := D.admit_start hok hc
  have hcount : D.Keeps held t.machine.store (fun _ _ => True)
      (step (countStep l) : Trace Unit) := by
    refine keeps_step ?_
    rintro m hs -
    show (_ ∧ _) ∧ _
    rw [outcome_countStep, ← hs]
    refine ⟨⟨hs ▸ hok, D.le_refl _, D.step_refl _⟩, fun _ _ => trivial, fun e he => ?_⟩
    obtain ⟨loc, f⟩ := e
    refine D.error_other ?_
    rintro rfl
    simp only [Config.budgetAt] at he
    split at he
    · split at he <;> cases he
    · cases he
  rw [Trace.outcome_start]
  have hkept := hcount { t with
    log := t.log ++ [.start c l ((D.given held).heldIn t.machine) t.machine.store] } rfl hok
  obtain ⟨l', hl', hrest⟩ := hkept.path
  exact ⟨hkept.ok, hkept.le, ⟨_, hl'.trans (List.append_cons ..).symm, .start l hmoment hrest⟩,
    hkept.result, hkept.error⟩

mutual
theorem perform {s : Store} {held : List Ref} (hc : D.scope held s c) :
    ∀ stmt : Stmt, D.Keeps held s (fun _ _ => True) (perform i c stmt)
  | .function _ => keeps_pure fun _ => trivial
  | .class _ => keeps_pure fun _ => trivial
  | .dim _ => keeps_pure fun _ => trivial
  | .optionExplicit _ => keeps_pure fun _ => trivial
  | .exit .. => keeps_pure fun _ => trivial
  | .assign l target value => by
    refine Keeps.bind (eval hi hc value) ?_
    intro s₁ v h₁ _ hv
    refine Keeps.bind (assign hi l (D.scope_mono (.refl _) h₁ hc) hv target) ?_
    intro _ _ _ _ _
    exact keeps_pure fun _ => trivial
  | .cond _ condition thenBlock elseBlock => by
    refine Keeps.bind (eval hi hc condition) ?_
    intro s₁ v h₁ _ _
    refine Keeps.bind (Q := fun _ _ => True)
      (keeps_check (fun _ _ => trivial) fun f hf => v.truth_ne_scopeDropped hf) ?_
    intro s₂ taken h₂ _ _
    have hc₂ := D.scope_mono (.refl _) (D.le_trans h₁ h₂) hc
    cases taken with
    | true => exact execute hc₂ thenBlock
    | false => exact execute hc₂ elseBlock
  | .expr _ e => by
    refine Keeps.bind (evalSlot hi hc e) ?_
    intro _ _ _ _ _
    exact keeps_pure fun _ => trivial

theorem executeAll {s : Store} {held : List Ref} (hc : D.scope held s c) :
    ∀ stmts : List Stmt, D.Keeps held s (fun _ _ => True) (executeAll i c stmts)
  | [] => keeps_pure fun _ => trivial
  | stmt :: stmts => by
    rw [Eval.executeAll]
    refine Keeps.bind (keeps_start stmt.location hc) ?_
    intro s₁ _ h₁ _ _
    have hc₁ := D.scope_mono (.refl _) h₁ hc
    refine Keeps.bind (perform hc₁ stmt) ?_
    intro s₂ flow h₂ _ _
    cases flow with
    | normal => exact executeAll (D.scope_mono (.refl _) h₂ hc₁) stmts
    | exit => exact keeps_pure fun _ => trivial

theorem execute {s : Store} {held : List Ref} (hc : D.scope held s c) :
    ∀ b : Block, D.Keeps held s (fun _ _ => True) (execute i c b)
  | ⟨_, stmts⟩ => executeAll hc stmts
end

theorem runWith (htop : D.scope held s D.top) :
    D.Keeps held s (fun _ _ => True) (runWith i D.top D.block) := by
  refine Keeps.bind (Q := fun _ _ => True) (keeps_step ?_) ?_
  · rintro m rfl hok
    obtain ⟨hok', hle⟩ := D.admit_hoist hok htop
    exact ⟨⟨hok', hle, .hoist⟩, fun _ _ => trivial, fun e he => nomatch he⟩
  · intro s₁ _ h₁ _ _
    refine Keeps.bind (execute hi (D.scope_mono (.refl _) h₁ htop) D.block) ?_
    intro _ _ _ _ _
    exact keeps_pure fun _ => trivial

/-! ## whole runs -/

omit hi in
/-- script functions keep to the discipline, however many calls are allowed -/
theorem invokes (n : Nat) : D.Invokes (Trace.invoke n) := by
  induction n with
  | zero =>
    intro held s c f d home args l _ _ _ _ _
    refine keeps_step ?_
    rintro m rfl hok
    refine ⟨⟨hok, D.le_refl _, D.step_refl _⟩, fun a ha => (nomatch ha), fun e he => ?_⟩
    obtain ⟨loc, fault⟩ := e
    obtain ⟨-, rfl⟩ := RuntimeError.mk.inj (Except.error.inj he)
    exact D.error_other fun h => nomatch h
  | succ n ih =>
    intro held s c f d home args l hc hf hfunction hhome hargs
    refine Keeps.bind (Q := fun s' act => D.scope (.scope home :: .scope act :: held) s' act)
      (keeps_step ?_) ?_
    · rintro m rfl hok
      obtain ⟨⟨hok', hle⟩, hscope⟩ := D.admit_enter hok hc hf hfunction hhome hargs
      refine ⟨⟨hok', hle, .enter _ hfunction hargs⟩, fun a ha => ?_, fun e he => nomatch he⟩
      obtain rfl := Except.ok.inj ha
      exact hscope
    · intro s₁ act _ _ hact
      refine Keeps.bind (Keeps.holding _ (execute ih hact d.body)) ?_
      intro s₂ _ h₂ hok₂ _
      refine (keeps_reading fun s => (s.scope act).result).imp ?_
      rintro _ _ - ⟨rfl, rfl⟩
      exact D.slot_result hok₂ (D.scope_mono (.refl _) h₂ hact)

omit hi in
theorem run {m : Machine} (hok : D.ok m.store) (htop : D.scope D.env.held m.store D.top) :
    D.Kept D.env.held m.store [] (fun _ _ => True) (Trace.run D.top D.block D.env m) :=
  runWith (invokes _) htop ⟨m, []⟩ rfl hok

end Discipline

end PageScript
