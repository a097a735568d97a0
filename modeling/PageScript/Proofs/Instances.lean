import PageScript.Proofs.Shelter
import PageScript.Proofs.Store.Instances

/-!
# What becomes of instances

As long as the host offers nothing but `response`, and leaves instances to scripts, an instance is at
every moment what it was made to be: an object with the members of its class, and a scope that binds
the same slots to the same names.  Code never runs in the scope of an instance, only in scopes inside
it, so nothing is declared there; and only objects of the host get members by assignment.

* `Store.Runs`                        the scopes where code runs;
* `tending`                           runs leave instances what they are;
* `Session.Served`                    the sessions of such a host, with the instances that were made;
* `Session.instances_represented`     their instances, at every moment.
-/

namespace PageScript

open Eval Runner

namespace Store

variable {s s' s₁ s₂ : Store} {top : ScopeId}

/-! ## scopes where code runs -/

/-- scopes stay where they are -/
structure Steady (s s' : Store) : Prop where
  scopes : s.scopes.size ≤ s'.scopes.size
  place : ∀ c, c.index < s.scopes.size → s'.place c = s.place c

theorem Undisturbed.steady (h : s.Undisturbed s') : s.Steady s' := ⟨h.scopes, h.place⟩

theorem Steady.refl (s : Store) : s.Steady s := ⟨le_rfl, fun _ _ => rfl⟩

theorem Steady.trans (h : s.Steady s₁) (h₁ : s₁.Steady s₂) : s.Steady s₂ :=
  ⟨h.scopes.trans h₁.scopes, fun c hc => (h₁.place c (hc.trans_le h.scopes)).trans (h.place c hc)⟩

/-- a scope where code can run while things are held: it belongs to no instance, and the scope right
around it is held, together with everything that is held all the time -/
structure Runs (base held : List Ref) (s : Store) (c : ScopeId) : Prop where
  base : ∀ r ∈ base, r ∈ held
  there : c.index < s.scopes.size
  owner : (s.scope c).owner = none
  parent : ∀ p, (s.scope c).outer.head? = some p → .scope p ∈ held

theorem Runs.mono {base held held' : List Ref} {c : ScopeId} (h : s.Runs base held c)
    (hheld : ∀ r ∈ held, r ∈ held') (hsteady : s.Steady s') : s'.Runs base held' c := by
  have hplace := hsteady.place c h.there
  have houter : (s'.scope c).outer = (s.scope c).outer := congrArg (·.1) hplace
  have howner : (s'.scope c).owner = (s.scope c).owner := congrArg (·.2.2) hplace
  refine ⟨fun r hr => hheld r (h.base r hr), h.there.trans_le hsteady.scopes,
    howner.trans h.owner, fun p hp => hheld _ (h.parent p ?_)⟩
  rwa [houter] at hp

/-- a store with a scope at the top, and instances, that a host looks after -/
structure Tended (top : ScopeId) (s : Store) : Prop where
  instances : s.Instances
  offers : s.Offers (· = .write)
  there : top.index < s.scopes.size
  outermost : (s.scope top).outer = []
  owner : (s.scope top).owner = none

theorem Tended.of_steady (h : s.Tended top) (hsteady : s.Steady s') (hinstances : s'.Instances)
    (hoffers : s'.Offers (· = .write)) : s'.Tended top := by
  have hplace := hsteady.place top h.there
  exact ⟨hinstances, hoffers, h.there.trans_le hsteady.scopes,
    (congrArg (·.1) hplace).trans h.outermost, (congrArg (·.2.2) hplace).trans h.owner⟩

theorem Offers.newResponse (h : s.Offers (· = .write)) (home : ScopeId) :
    (s.newResponse home).2.Offers (· = .write) := by
  intro f n home' r hf
  have hf : (s.newFunction (.host "write" home .write)).2.function f = .host n home' r := hf
  rw [function_newFunction] at hf
  split at hf
  · exact (Function.host.inj hf).2.2.symm
  · exact h f n home' r hf

theorem Tended.undisturbed (h : s.Tended top) (hrest : s.Undisturbed s')
    (hoffers : s'.Offers (· = .write)) : s'.Tended top :=
  h.of_steady hrest.steady hrest.instances hoffers

theorem Making.steady {d : ClassDecl} {names : List String} (h : s.Making d names s') :
    s.Steady s' :=
  ⟨(h.instances.there _ _ h.own).le, h.place⟩

theorem undisturbed_activate (h : s.Instances) (byRef : Bool) (d : FunctionDecl) (home : ScopeId)
    (args : List SlotId) : s.Undisturbed (activate byRef d home args s).2 :=
  (Undisturbed.newScope h _ _ _).trans (.activate h byRef d home args)

theorem runs_activate (h : s.Instances) {base held : List Ref} (hbase : ∀ r ∈ base, r ∈ held)
    (byRef : Bool) (d : FunctionDecl) (home : ScopeId) (args : List SlotId) :
    (activate byRef d home args s).2.Runs base (.scope home :: .scope ⟨s.scopes.size⟩ :: held)
      ⟨s.scopes.size⟩ := by
  let child := (s.newChild home (resultName d)).2
  have hlt : s.scopes.size < child.scopes.size := s.lt_newScope _ _ _
  have hchild : child.scope ⟨s.scopes.size⟩ = s.freshScope (home :: (s.scope home).outer)
      (s.scope home).isExplicit (resultName d) :=
    (s.scope_newScope _ _ _ ⟨s.scopes.size⟩).trans (if_pos rfl)
  have hruns : child.Runs base (.scope home :: .scope ⟨s.scopes.size⟩ :: held)
      ⟨s.scopes.size⟩ := by
    refine ⟨fun r hr => List.mem_cons_of_mem _ (List.mem_cons_of_mem _ (hbase r hr)), hlt,
      by rw [hchild]; rfl, fun p hp => ?_⟩
    rw [hchild] at hp
    obtain rfl := Option.some.inj hp
    exact List.mem_cons_self
  exact hruns.mono (fun _ hr => hr) (Undisturbed.activate h byRef d home args).steady

end Store

/-! ## the discipline -/

/-- code runs in scopes that belong to no instance, and leaves instances what they are -/
def tending (env : Env) (block : Block) (top : ScopeId) : Discipline where
  env := env
  block := block
  top := top
  ok := Store.Tended top
  le := Store.Steady
  le_refl := .refl
  le_trans := .trans
  quiet s s' := s.Instances → s.Undisturbed s'
  quiet_refl _ := .refl
  quiet_trans h h' hs := (h hs).trans (h' (h hs).instances)
  scope held s c := s.Runs env.held held c
  scope_mono hheld hle hc := hc.mono hheld.all hle
  value _ _ := True
  value_mono _ _ := trivial
  value_data _ := trivial
  slot _ _ := True
  slot_mono _ _ := trivial
  value_slot _ _ := trivial
  place _ _ _ := True
  place_slot _ := trivial
  slot_place _ _ _ := trivial
  callable _ _ _ := True
  callable_mono _ _ := trivial
  callable_place _ _ _ := trivial
  callable_value _ := trivial
  moment H s c := s.Runs env.held H c
  admit_start {held m c} _ hc :=
    hc.mono (fun _ hr => { env with held }.mem_heldIn hr m) (.refl _)
  error _ _ _ := True
  error_mono _ _ := trivial
  error_other _ := trivial
  error_outer _ _ _ _ := trivial
  error_home _ _ _ _ := trivial
  place_found _ _ _ := trivial
  value_owner _ _ _ := trivial
  place_member _ _ _ := trivial
  admit_newSlot {_ v} hok _ := by
    have hrest := Store.Undisturbed.newSlot hok.instances v
    exact ⟨⟨hok.undisturbed hrest hok.offers, hrest.steady, fun _ => hrest⟩, trivial⟩
  admit_setSlot {_ _ id v} hok _ _ := by
    have hrest := Store.Undisturbed.setSlot hok.instances id v
    exact ⟨hok.undisturbed hrest hok.offers, hrest.steady, fun _ => hrest⟩
  admit_declare {_ _ _ n} hok hc _ := by
    have hrest := Store.Undisturbed.declare hok.instances hc.owner n .empty
    exact ⟨⟨hok.undisturbed hrest hok.offers, hrest.steady, fun _ => hrest⟩, trivial⟩
  admit_define {_ _ n v} hok _ hinstance _ := by
    have hrest := Store.Undisturbed.define hok.instances hinstance n v
    exact ⟨hok.undisturbed hrest hok.offers, hrest.steady, fun _ => hrest⟩
  admit_hoist hok hc := by
    have hrest := Store.Undisturbed.hoist hok.instances hc.there hc.owner block
    exact ⟨hok.undisturbed hrest (hok.offers.hoist top block), hrest.steady⟩
  admit_newInstance {_ s _ home _ d} hok hc _ _ _ := by
    have hmade := s.making_newInstance hok.instances d home
    exact ⟨⟨hok.of_steady hmade.steady hmade.instances (hok.offers.newInstance d home),
      hmade.steady⟩, trivial, hc.mono (fun r hr => List.mem_append_right _ hr) hmade.steady⟩
  admit_enter {_ s _ _ d home args} hok hc _ _ _ _ := by
    have hrest := Store.undisturbed_activate hok.instances env.config.byRef d home args
    exact ⟨⟨hok.undisturbed hrest (hok.offers.activate _ d home args), hrest.steady⟩,
      Store.runs_activate hok.instances hc.base _ d home args⟩
  slot_result _ _ := trivial
  admit_routine held {_ m _ f n home r args l} hok _ _ hfunction _ := by
    obtain rfl := hok.offers f n home r hfunction
    obtain ⟨hsame, -, herror⟩ := Routine.write_spec l home args { env with held } m
    refine ⟨?_, fun _ _ => trivial, herror⟩
    rw [hsame]
    exact ⟨hok, .refl _, .refl⟩

/-! ## instances that were made -/

/-- a step makes an instance of a class that a scope has -/
def Event.Creates (e : Event) (o : ObjectId) (d : ClassDecl) : Prop :=
  ∃ before home name, (Store.scope before home).classes.find? name = some d ∧
    o = ⟨before.objects.size⟩ ∧ e = .step before (before.newInstance d home).2

/-- the instances that were made before, and those that are made in a trace -/
def Known (made : ObjectId → ClassDecl → Prop) (l : List Event) (o : ObjectId) (d : ClassDecl) :
    Prop :=
  made o d ∨ ∃ e ∈ l, e.Creates o d

theorem known_nil (made : ObjectId → ClassDecl → Prop) : Known made [] = made := by
  funext o d
  simp [Known]

theorem known_cons (made : ObjectId → ClassDecl → Prop) (e : Event) (l : List Event) :
    Known made (e :: l) = Known (Known made [e]) l := by
  funext o d
  simp only [Known, List.mem_cons, List.not_mem_nil, or_false, exists_eq_left, or_and_right,
    exists_or, or_assoc]

/-- a statement that starts makes no instance -/
theorem known_start (made : ObjectId → ClassDecl → Prop) (c : ScopeId) (l : Location)
    (held : List Ref) (s : Store) : Known made [.start c l held s] = made := by
  funext o d
  refine propext ⟨fun h => h.elim (fun hmade => hmade) ?_, .inl⟩
  rintro ⟨e, he, before, home, name, -, -, rfl⟩
  cases List.mem_singleton.mp he

namespace Store

variable {s s' : Store} {made : ObjectId → ClassDecl → Prop}

/-- the instances of a store are those that were made, and each is one of its class -/
structure Tracks (made : ObjectId → ClassDecl → Prop) (s : Store) : Prop where
  known : ∀ o own, (s.object o).scope = some own → ∃ d, made o d
  represents : ∀ o d, made o d → ∃ own, (s.object o).scope = some own ∧ s.Represents o own d

theorem Undisturbed.tracks (h : s.Undisturbed s') (hs : s.Tracks made) : s'.Tracks made where
  known o own ho := hs.known o own (h.owned o ▸ ho)
  represents o d hd := by
    obtain ⟨own, ho, hrep⟩ := hs.represents o d hd
    exact ⟨own, (h.owned o).trans ho, h.represents ho hrep⟩

theorem Undisturbed.not_creates (h : s.Undisturbed s') (hs : s.Instances) (o : ObjectId)
    (d : ClassDecl) : ¬ (Event.step s s').Creates o d := by
  rintro ⟨before, home, name, -, rfl, heq⟩
  obtain ⟨rfl, rfl⟩ := Event.step.inj heq
  have hnew := (s.making_newInstance hs d home).own
  have hnone : (s.object ⟨s.objects.size⟩).scope = none := object_of_size_le le_rfl
  rw [h.owned, hnone] at hnew
  cases hnew

theorem Making.represents {d : ClassDecl} (h : s.Making d d.memberNames s') :
    s'.Represents ⟨s.objects.size⟩ ⟨s.scopes.size⟩ d :=
  ⟨h.className, h.names, h.once, h.bindings⟩

theorem Making.tracks {d : ClassDecl} {names : List String} (h : s.Making d names s')
    (hs : s.Instances) {o : ObjectId} {own : ScopeId} {k : ClassDecl}
    (ho : (s.object o).scope = some own) (hk : s.Represents o own k) :
    (s'.object o).scope = some own ∧ s'.Represents o own k := by
  have hold : o.index ≠ s.objects.size := by
    intro heq
    rw [object_of_size_le heq.ge] at ho
    cases ho
  have hobject := h.object o hold
  refine ⟨hobject ▸ ho, hobject ▸ hk.className, hobject ▸ hk.names, hobject ▸ hk.once, ?_⟩
  rw [h.scope own (hs.there o own ho), hobject, hk.bindings]

/-- after a step, the instances are those that there were and those that it has made -/
theorem Tracks.step {env : Env} {block : Block} {top : ScopeId} (hs : s.Tracks made)
    (hok : s.Tended top) (hstep : (tending env block top).Step s s') :
    s'.Tracks (Known made [.step s s']) := by
  have hquiet : s.Undisturbed s' → s'.Tracks (Known made [.step s s']) := by
    intro hrest
    have hknown : Known made [.step s s'] = made := by
      funext o d
      refine propext ⟨fun h => h.elim (fun hmade => hmade) ?_, .inl⟩
      rintro ⟨e, he, hcreates⟩
      obtain rfl := List.mem_singleton.mp he
      exact absurd hcreates (hrest.not_creates hok.instances o d)
    rw [hknown]
    exact hrest.tracks hs
  cases hstep with
  | quiet hrest => exact hquiet (hrest hok.instances)
  | hoist => exact hquiet (.hoist hok.instances hok.there hok.owner block)
  | @enter _ d home args byRef _ _ =>
    exact hquiet (undisturbed_activate hok.instances byRef d home args)
  | @newInstance home name d hd =>
    have hmaking := s.making_newInstance hok.instances d home
    refine ⟨fun o own ho => ?_, fun o k hknown => ?_⟩
    · by_cases hnew : o.index = s.objects.size
      · obtain rfl : o = ⟨s.objects.size⟩ := congrArg ObjectId.mk hnew
        exact ⟨d, .inr ⟨_, List.mem_singleton.mpr rfl, s, home, name, hd, rfl, rfl⟩⟩
      · rw [hmaking.object o hnew] at ho
        obtain ⟨k, hk⟩ := hs.known o own ho
        exact ⟨k, .inl hk⟩
    · rcases hknown with hk | ⟨e, he, before, home', name', -, rfl, rfl⟩
      · obtain ⟨own, ho, hrep⟩ := hs.represents o k hk
        exact ⟨own, hmaking.tracks hok.instances ho hrep⟩
      · -- the step is what it is, whichever class it is seen to instantiate
        obtain ⟨rfl, hafter⟩ := Event.step.inj (List.mem_singleton.mp he)
        have hmaking' := before.making_newInstance hok.instances k home'
        rw [hafter] at hmaking'
        exact ⟨_, hmaking'.own, hmaking'.represents⟩

end Store

/-- at every moment of a trace, the instances are those that there were and those that were made -/
theorem tracks_of_path {env : Env} {block : Block} {top : ScopeId} {s s' : Store} {l : List Event}
    (h : (tending env block top).Path s l s') (hok : s.Tended top)
    {made : ObjectId → ClassDecl → Prop} (hs : s.Tracks made) :
    Trace.reached s l = s' ∧ ∀ past, past <+: l →
      (Trace.reached s past).Tended top ∧ (Trace.reached s past).Tracks (Known made past) := by
  induction h generalizing made with
  | nil s =>
    refine ⟨rfl, fun past hpast => ?_⟩
    obtain rfl := List.prefix_nil.mp hpast
    exact ⟨hok, (known_nil made).symm ▸ hs⟩
  | @step s s₁ s₂ l hstep hok₁ _ ih =>
    obtain ⟨hlast, hall⟩ := ih hok₁ (hs.step hok hstep)
    refine ⟨hlast, fun past hpast => ?_⟩
    rcases List.prefix_cons_iff.mp hpast with rfl | ⟨rest, rfl, hrest⟩
    · exact ⟨hok, (known_nil made).symm ▸ hs⟩
    · rw [known_cons]
      exact hall rest hrest
  | @start s s₂ l c loc H _ _ ih =>
    obtain ⟨hlast, hall⟩ := ih hok hs
    refine ⟨hlast, fun past hpast => ?_⟩
    rcases List.prefix_cons_iff.mp hpast with rfl | ⟨rest, rfl, hrest⟩
    · exact ⟨hok, (known_nil made).symm ▸ hs⟩
    · rw [known_cons, known_start]
      exact hall rest hrest

theorem tracks_of_kept {α : Type} {env : Env} {block : Block} {top : ScopeId} {held : List Ref}
    {s : Store} {Q : Store → α → Prop} {o : Except RuntimeError α × Traced}
    (hkept : (tending env block top).Kept held s [] Q o) (hok : s.Tended top)
    {made : ObjectId → ClassDecl → Prop} (hs : s.Tracks made) :
    Trace.reached s o.2.log = o.2.machine.store ∧ ∀ past, past <+: o.2.log →
      (Trace.reached s past).Tended top ∧ (Trace.reached s past).Tracks (Known made past) := by
  obtain ⟨l, hlog, hpath⟩ := hkept.path
  obtain rfl : o.2.log = l := hlog
  exact tracks_of_path hpath hok hs

/-! ## whole sessions -/

namespace Session

/-- a traced evaluation of an expression in the global scope -/
abbrev tracedExpr (s : Session) (steps : Nat) (e : Expr) : Except RuntimeError Value × Traced :=
  (Eval.eval (Trace.invoke s.config.maxCallDepth) s.globals e).outcome s.env
    ⟨⟨s.store, steps, s.output⟩, []⟩

/-- a host that registers `response`, values and objects of its own, gives members to objects that are
no instances, runs blocks and evaluates expressions; it takes note of the instances that have been
made, and of their classes -/
def registrar : Hosting ((ObjectId → ClassDecl → Prop) × Session) where
  start config records := (fun _ _ => False, start config records)
  after
    | (made, s), .runBlock steps scope block =>
      (Known made (s.traced steps block).2.log, s.after (.runBlock steps scope block))
    | (made, s), .runExpr steps scope e =>
      (Known made (s.tracedExpr steps e).2.log, s.after (.runExpr steps scope e))
    | (made, s), a => (made, s.after a)
  may
    | _, .pin _ | _, .clearOutput | _, .registerResponse | _, .register _ _ | _, .newObject _ => True
    | p, .define id _ _ => p.2.store.isInstance id = false
    | p, .runBlock _ scope _ | p, .runExpr _ scope _ => scope = p.2.globals
    | _, _ => False

abbrev Served (made : ObjectId → ClassDecl → Prop) (s : Session) : Prop := registrar.Reaches (made, s)

variable {made : ObjectId → ClassDecl → Prop} {s : Session}

theorem runs_globals (h : s.store.Tended s.globals) :
    s.store.Runs s.env.held s.env.held s.globals := by
  refine ⟨fun _ hr => hr, h.there, h.owner, fun p hp => ?_⟩
  rw [h.outermost] at hp
  cases hp

theorem kept_run (h : s.store.Tended s.globals) (steps : Nat) (block : Block) :
    (tending s.env block s.globals).Kept s.env.held s.store [] (fun _ _ => True)
      (s.traced steps block) :=
  Discipline.run (D := tending s.env block s.globals) (m := ⟨s.store, steps, s.output⟩) h
    (runs_globals h)

theorem kept_eval (h : s.store.Tended s.globals) (steps : Nat) (e : Expr) :
    (tending s.env default s.globals).Kept s.env.held s.store [] (fun _ _ => True)
      (s.tracedExpr steps e) :=
  Discipline.eval (D := tending s.env default s.globals) (Discipline.invokes _) (runs_globals h) e
    ⟨⟨s.store, steps, s.output⟩, []⟩ rfl h

theorem tracedExpr_eq (s : Session) (steps : Nat) (e : Expr) :
    let ended := s.perform steps (runExpr s.globals e)
    (s.tracedExpr steps e).1 = ended.1 ∧
      (s.tracedExpr steps e).2.machine = ⟨ended.2.2.store, ended.2.1, ended.2.2.output⟩ := by
  have hrun := outcome_runExpr s.globals e s.env ⟨s.store, steps, s.output⟩
  constructor
  · exact (Trace.eval_eq _ s.globals e s.env _).trans (congrArg Prod.fst hrun).symm
  · exact (Trace.machine_eval _ s.globals e s.env _).trans (congrArg Prod.snd hrun).symm

/-- the store is looked after, and its instances are those that were made -/
theorem Served.tracks (h : s.Served made) : s.store.Tended s.globals ∧ s.store.Tracks made := by
  refine h.invariant (fun p => p.2.store.Tended p.2.globals ∧ p.2.store.Tracks p.1)
    (fun config records => ?_) ?_
  · refine ⟨⟨(Store.Undisturbed.newScope Store.instances_empty [] config.isExplicit none).instances,
      fun f n home r hf => ?_, Nat.zero_lt_one, rfl, rfl⟩, fun o own ho => (nomatch ho),
      fun o d hd => hd.elim⟩
    exact (Function.host.inj hf).2.2.symm
  rintro ⟨made, s⟩ a - hmay ⟨htended, htracks⟩
  have hkeep : ∀ {x : Store}, s.store.Undisturbed x → x.Offers (· = .write) →
      x.Tended s.globals ∧ x.Tracks made :=
    fun hrest hoffers => ⟨htended.undisturbed hrest hoffers, hrest.tracks htracks⟩
  cases a with
  | pin => exact ⟨htended, htracks⟩
  | clearOutput => exact ⟨htended, htracks⟩
  | registerResponse =>
    obtain ⟨hresponse, hmade⟩ := hkeep (.newResponse htended.instances s.globals)
      (htended.offers.newResponse s.globals)
    have hrest := Store.Undisturbed.declare hresponse.instances hresponse.owner "response"
      (.object (s.store.newResponse s.globals).1)
    exact ⟨hresponse.undisturbed hrest hresponse.offers, hrest.tracks hmade⟩
  | register name v => exact hkeep (.declare htended.instances htended.owner name v) htended.offers
  | newObject className => exact hkeep (.newObject htended.instances className) htended.offers
  | define id name v => exact hkeep (.define htended.instances hmay name v) htended.offers
  | runBlock steps scope block =>
    obtain rfl : scope = s.globals := hmay
    obtain ⟨hlast, hall⟩ := tracks_of_kept (kept_run htended steps block) htended htracks
    show (s.perform steps (runBlock s.globals block)).2.2.store.Tended _ ∧
      (s.perform steps (runBlock s.globals block)).2.2.store.Tracks _
    rw [store_perform, ← hlast]
    exact hall _ List.prefix_rfl
  | runExpr steps scope e =>
    obtain rfl : scope = s.globals := hmay
    obtain ⟨hlast, hall⟩ := tracks_of_kept (kept_eval htended steps e) htended htracks
    have hstore := congrArg Machine.store (s.tracedExpr_eq steps e).2
    show (s.perform steps (runExpr s.globals e)).2.2.store.Tended _ ∧
      (s.perform steps (runExpr s.globals e)).2.2.store.Tracks _
    rw [← show _ = (s.perform steps (runExpr s.globals e)).2.2.store from hstore, ← hlast]
    exact hall _ List.prefix_rfl
  | _ => exact hmay.elim

/-- the instances of a store are what their classes say, and share no members -/
def SoundInstances (made : ObjectId → ClassDecl → Prop) (s : Store) : Prop :=
  (∀ o own, (s.object o).scope = some own →
    (∃ d, made o d) ∧ ∀ d, made o d → s.Represents o own d) ∧
  ∀ o o' id, id ∈ (s.object o).fields.values → id ∈ (s.object o').fields.values → o = o'

theorem soundInstances {s : Store} {top : ScopeId} (h : s.Tended top) (hs : s.Tracks made) :
    SoundInstances made s := by
  refine ⟨fun o own ho => ⟨hs.known o own ho, fun d hd => ?_⟩, h.instances.apart⟩
  obtain ⟨own', ho', hrep⟩ := hs.represents o d hd
  obtain rfl : own' = own := Option.some.inj (ho'.symm.trans ho)
  exact hrep

/-- instances are what their classes say, at every moment.

The moments of a run are the beginnings of its trace: `Trace.reached` is the store then, and `Known`
says which instances have been made by then, and of which classes.  Every instance has been made, and
has the members of its class, each in the same slot for the object and for its scope; and no slot is
a member of two objects.  It is the same while an expression is evaluated. -/
theorem instances_represented (hs : s.Served made) (steps : Nat) :
    (∀ block, let ended := s.perform steps (runBlock s.globals block)
      ((s.traced steps block).1 = ended.1 ∧
        Trace.reached s.store (s.traced steps block).2.log = ended.2.2.store) ∧
      ∀ past, past <+: (s.traced steps block).2.log →
        SoundInstances (Known made past) (Trace.reached s.store past)) ∧
    ∀ e, let ended := s.perform steps (runExpr s.globals e)
      ((s.tracedExpr steps e).1 = ended.1 ∧
        Trace.reached s.store (s.tracedExpr steps e).2.log = ended.2.2.store) ∧
      ∀ past, past <+: (s.tracedExpr steps e).2.log →
        SoundInstances (Known made past) (Trace.reached s.store past) := by
  obtain ⟨htended, htracks⟩ := hs.tracks
  constructor
  · intro block ended
    obtain ⟨hlast, hall⟩ := tracks_of_kept (kept_run htended steps block) htended htracks
    refine ⟨⟨(s.traced_eq steps block).1, ?_⟩, fun past hpast => ?_⟩
    · exact hlast.trans (s.store_perform steps block).symm
    · exact soundInstances (hall past hpast).1 (hall past hpast).2
  · intro e ended
    obtain ⟨hlast, hall⟩ := tracks_of_kept (kept_eval htended steps e) htended htracks
    refine ⟨⟨(s.tracedExpr_eq steps e).1, ?_⟩, fun past hpast => ?_⟩
    · exact hlast.trans (congrArg Machine.store (s.tracedExpr_eq steps e).2)
    · exact soundInstances (hall past hpast).1 (hall past hpast).2

/-- a class with fields `x` and `X` and a method that declares a variable on the spot and makes
another instance; an instance of it, whose method is called, and a member that it has not -/
def listed : Block :=
  ⟨⟨"page", 1, 1⟩,
    [.class ⟨⟨"page", 1, 1⟩, "P", [⟨⟨"page", 2, 7⟩, "x"⟩, ⟨⟨"page", 2, 10⟩, "X"⟩],
      [⟨⟨"page", 3, 3⟩, .sub, "Grow", [], ⟨⟨"page", 4, 5⟩,
        [.assign ⟨"page", 4, 7⟩ (.path ⟨"page", 4, 5⟩ ["y"]) (.literal ⟨"page", 4, 9⟩ (.integer 1)),
        .assign ⟨"page", 5, 7⟩ (.path ⟨"page", 5, 5⟩ ["x"]) (.new ⟨"page", 5, 9⟩ "P")]⟩⟩]⟩,
    .assign ⟨"page", 8, 7⟩ (.path ⟨"page", 8, 5⟩ ["p"]) (.new ⟨"page", 8, 9⟩ "P"),
    .expr ⟨"page", 9, 1⟩ (.path ⟨"page", 9, 1⟩ ["p", "grow"]),
    .assign ⟨"page", 10, 5⟩ (.path ⟨"page", 10, 1⟩ ["p", "z"])
      (.literal ⟨"page", 10, 7⟩ (.integer 1))]⟩

/-- the last assignment fails, and both instances have the members of their class -/
theorem instances_represented_listed :
    let s := (start .default true).registerResponse
    let ended := s.perform 0 (runBlock s.globals listed)
    ended.1 = .error ⟨⟨"page", 10, 1⟩, .unknownMember "z"⟩ ∧
    (∀ i ∈ [1, 2],
      (ended.2.2.store.object ⟨i⟩).fields.entries.map Prod.fst = ["grow", "x"]) ∧
    SoundInstances (Known (fun _ _ => False) (s.traced 0 listed).2.log) ended.2.2.store := by
  intro s ended
  have hs : s.Served fun _ _ => False := .act .registerResponse trivial (.start _ _)
  refine ⟨by decide +kernel, by decide +kernel, ?_⟩
  clear_value s
  have hrun := (instances_represented hs 0).1 listed
  have hsound := hrun.2 _ List.prefix_rfl
  rw [hrun.1.2] at hsound
  exact hsound

end Session

end PageScript
