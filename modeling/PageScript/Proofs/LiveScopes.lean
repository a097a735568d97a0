import PageScript.Proofs.Shelter

/-!
# Scopes that stay alive

What a run loses, it loses through instances (`Store.Loses`).  So what instances a session can have
decides what can be lost, and that depends on where its programs declare classes.

* Without classes there are no instances: every statement starts with all scopes around it alive,
  and no run ends because a scope is gone (`Session.closures_keep_scopes`).
* Where all classes and functions are declared at the top, only the global scope lies around the
  scope of an instance.  It stays alive, so all that can be lost is the scope of an instance
  itself, together with the instance: between the lookup of a method and its call nothing holds the
  instance (`Session.lost_instances`).
-/

namespace PageScript

open Eval

/-! ## what is declared -/

/-- functions as `F` says declare functions and classes as `F` and `C` say, and so do the methods of
such classes -/
structure Hereditary (F : FunctionDecl → Prop) (C : ScopeId → ClassDecl → Prop) : Prop where
  functions : ∀ {d f}, F d → f ∈ d.body.functions → F f
  classes : ∀ {d k}, F d → k ∈ d.body.classes → ∀ c, C c k
  methods : ∀ {c k method}, C c k → method ∈ k.methods → F method

namespace Store

/-- functions are as `F` says, classes as `C` does, and the scope of an instance lies right inside a
scope that has a class -/
structure Declares (F : FunctionDecl → Prop) (C : ScopeId → ClassDecl → Prop) (s : Store) :
    Prop where
  function : ∀ f d home, s.function f = .script d home → F d
  classes : ∀ c n d, (s.scope c).classes.find? n = some d → C c d
  inside : ∀ o own, (s.object o).scope = some own →
    ∃ home d, C home d ∧ (s.scope own).outer = home :: (s.scope home).outer

namespace Declares

variable {F : FunctionDecl → Prop} {C : ScopeId → ClassDecl → Prop} {s s' : Store}
  {globals : ScopeId}

theorem of_grows (h : s.Declares F C) (hs : s.Housed globals) (hgrows : s.Grows s')
    (hfunction : ∀ f d home, s'.function f = .script d home →
      s.function f = .script d home ∨ F d)
    (hclasses : ∀ c n d, (s'.scope c).classes.find? n = some d →
      (s.scope c).classes.find? n = some d ∨ C c d)
    (hinside : ∀ o own, (s'.object o).scope = some own → (s.object o).scope = some own ∨
      ∃ home d, C home d ∧ (s'.scope own).outer = home :: (s'.scope home).outer) :
    s'.Declares F C where
  function f d home hf := (hfunction f d home hf).elim (h.function f d home) fun hd => hd
  classes c n d hd := (hclasses c n d hd).elim (h.classes c n d) fun hd => hd
  inside o own ho := by
    rcases hinside o own ho with hold | hnew
    · obtain ⟨home, d, hd, houter⟩ := h.inside o own hold
      have hown := hs.homed.owned o own hold
      have hhome : home.index < own.index :=
        hs.nested.lt_of_mem_outer (houter ▸ List.mem_cons_self)
      refine ⟨home, d, hd, ?_⟩
      rw [hgrows.outer own hown, houter, hgrows.outer home (hhome.trans hown)]
    · exact hnew

theorem declare (h : s.Declares F C) (hs : s.Housed globals) (c : ScopeId) (n : String)
    (v : Value) : (s.declare c n v).2.Declares F C := by
  have hsame : s.Furnished F (fun _ => False) c (s.declare c n v).2 := .declare s n v
  refine h.of_grows hs (s.grows_declare c n v) hsame.function (fun x m d hd => ?_)
    fun o own ho => ?_
  · exact (hsame.classes x m d hd).imp_right fun hnone => hnone.2.elim
  · exact .inl ((hsame.owned o).symm.trans ho)

theorem owned_newObject_none {className : String} {o : ObjectId} {own : ScopeId}
    (ho : ((s.newObject ⟨className, .empty, none⟩).2.object o).scope = some own) :
    (s.object o).scope = some own := by
  rw [object_newObject] at ho
  split at ho
  · cases ho
  · exact ho

theorem newObject (h : s.Declares F C) (hs : s.Housed globals) (className : String) :
    (s.newObject ⟨className, .empty, none⟩).2.Declares F C :=
  h.of_grows hs (s.grows_newObject _) (fun _ _ _ hf => .inl hf) (fun _ _ _ hd => .inl hd)
    fun _ _ ho => .inl (owned_newObject_none ho)

theorem define (h : s.Declares F C) (hs : s.Housed globals) (o : ObjectId) (n : String)
    (v : Value) : (s.define o n v).2.Declares F C :=
  h.of_grows hs ((s.grows_newSlot v).trans (grows_addField _ o n _)) (fun _ _ _ hf => .inl hf)
    (fun _ _ _ hd => .inl hd)
    fun x _ ho => .inl (((s.newSlot v).2.scope_addField o x n _).symm.trans ho)

theorem newResponse (h : s.Declares F C) (hs : s.Housed globals) (home : ScopeId) :
    (s.newResponse home).2.Declares F C := by
  have hgrows : s.Grows (s.newResponse home).2 :=
    ((s.grows_newFunction _).trans (grows_newObject _ _)).trans
      ((grows_newSlot _ _).trans (grows_addField _ _ _ _))
  refine h.of_grows hs hgrows (fun f d x hf => .inl ?_) (fun _ _ _ hd => .inl hd)
    fun o own ho => .inl ?_
  · have hf : (s.newFunction (.host "write" home .write)).2.function f = .script d x := hf
    rw [function_newFunction] at hf
    split at hf
    · cases hf
    · exact hf
  · have ho : (((s.newFunction (.host "write" home .write)).2.newObject
        ⟨"Response", .empty, none⟩).2.object o).scope = some own :=
      (scope_addField _ _ o _ _).symm.trans ho
    exact owned_newObject_none ho

theorem hoist (h : s.Declares F C) (hs : s.Housed globals) {c : ScopeId} {b : Block}
    (hF : ∀ d ∈ b.functions, F d) (hC : ∀ k ∈ b.classes, C c k) :
    (b.hoist c s).Declares F C := by
  have hsteps := s.furnishes_hoist (c := c) hF hC
  refine h.of_grows hs hsteps.grows hsteps.furnished.function (fun x n d hd => ?_)
    fun o own ho => ?_
  · refine (hsteps.furnished.classes x n d hd).imp_right ?_
    rintro ⟨rfl, hk⟩
    exact hk
  · exact .inl ((hsteps.furnished.owned o).symm.trans ho)

variable (hrules : Hereditary F C)
include hrules

theorem newInstance (h : s.Declares F C) (hs : s.Housed globals) {home : ScopeId} {n : String}
    {d : ClassDecl} (hd : (s.scope home).classes.find? n = some d)
    (hhome : home.index < s.scopes.size) : (s.newInstance d home).2.Declares F C := by
  have hclass := h.classes home n d hd
  have hsteps := s.furnishes_newInstance (F := F) (C := fun _ => False) d home
    fun method hmethod => hrules.methods hclass hmethod
  refine h.of_grows hs (s.grows_newInstance d home) (fun f d' x hf => ?_) (fun x m k hk => ?_)
    fun o own ho => (s.owned_newInstance d home ho).imp_right ?_
  · exact hsteps.furnished.function f d' x hf
  · rcases hsteps.furnished.classes x m k hk with hold | ⟨-, hnone⟩
    · exact .inl (s.classes_opened d home hold)
    · exact hnone.elim
  · rintro rfl
    refine ⟨home, d, hclass, ?_⟩
    rw [s.outer_newInstance, (s.grows_newInstance d home).outer home hhome]

theorem activate (h : s.Declares F C) (hs : s.Housed globals) {f : FunctionId} {d : FunctionDecl}
    {home : ScopeId} {args : List SlotId} (hfunction : s.function f = .script d home)
    (hargs : ∀ arg ∈ args, s.Plain arg) (byRef : Bool) :
    (activate byRef d home args s).2.Declares F C := by
  have hd := h.function f d home hfunction
  have hsteps := s.furnishes_activate (F := F) (C := C ⟨s.scopes.size⟩) byRef home hargs
    (fun f hf => hrules.functions hd hf) fun k hk => hrules.classes hd hk _
  refine h.of_grows hs (s.grows_activate byRef home hargs) (fun g d' x hg => ?_)
    (fun x n k hk => ?_) fun o own ho => .inl ((hsteps.furnished.owned o).symm.trans ho)
  · exact hsteps.furnished.function g d' x hg
  · rcases hsteps.furnished.classes x n k hk with hold | ⟨rfl, hnew⟩
    · exact .inl (s.classes_newScope _ _ _ hold)
    · exact .inr hnew

theorem change (h : s.Declares F C) (hs : s.Housed globals) {block : Block} {top : ScopeId}
    (hF : ∀ d ∈ block.functions, F d) (hC : ∀ k ∈ block.classes, C top k)
    (hstep : s.Change block top Store.Plain Store.Quiet s') : s'.Declares F C := by
  cases hstep with
  | quiet hquiet =>
    refine ⟨fun f d home hf => ?_, fun c n d hd => ?_, fun o own ho => ?_⟩
    · rw [Store.function, hquiet.functions] at hf
      exact h.function f d home hf
    · exact h.classes c n d (hquiet.classes c ▸ hd)
    · obtain ⟨home, d, hd, houter⟩ := h.inside o own ((hquiet.owned o).symm.trans ho)
      exact ⟨home, d, hd, by rw [hquiet.outer, hquiet.outer, houter]⟩
  | hoist => exact h.hoist hs hF hC
  | newInstance hd => exact h.newInstance hrules hs hd (lt_of_classes hd)
  | enter byRef hfunction hargs => exact h.activate hrules hs hfunction hargs byRef

end Declares

end Store

namespace Session

/-- in a run of a block whose declarations are as they should be, all declarations are -/
theorem Hosted.declares_traced {P : Block → Prop} {F : FunctionDecl → Prop}
    {C : ScopeId → ClassDecl → Prop} (hrules : Hereditary F C) {s : Session} (h : s.Hosted P)
    (hdeclares : s.store.Declares F C) {block : Block} (hF : ∀ d ∈ block.functions, F d)
    (hC : ∀ k ∈ block.classes, C s.globals k) (steps : Nat) :
    (s.traced steps block).2.machine.store.Declares F C ∧
      ∀ e ∈ (s.traced steps block).2.log, ∀ x ∈ e.stores, x.Housed s.globals ∧ x.Declares F C := by
  obtain ⟨l, hlog, hpath⟩ := (kept_of_housed h.housed steps block).path
  obtain rfl : (s.traced steps block).2.log = l := hlog
  refine hpath.invariant (fun hok hstep hx => ?_) h.housed hdeclares
  exact hx.change hrules hok hF hC hstep

/-- what the programs of a session declare decides what its store does, all the way through a run -/
theorem Hosted.declares {P : Block → Prop} {F : FunctionDecl → Prop}
    {C : ScopeId → ClassDecl → Prop} (hrules : Hereditary F C)
    (hP : ∀ b, P b → (∀ d ∈ b.functions, F d) ∧ ∀ k ∈ b.classes, C ⟨0⟩ k) {s : Session}
    (h : s.Hosted P) : s.store.Declares F C :=
  h.upheld (I := fun _ store => store.Declares F C)
    { start := fun isExplicit => ⟨fun f d home hf => (nomatch hf),
        fun c n d hd => (nomatch Store.empty.classes_newScope [] isExplicit none hd),
        fun o own ho => (nomatch ho)⟩
      register := fun {_ name _} hs _ ih => ih.declare (housed hs) _ name _
      registerResponse := fun hs _ ih =>
        (ih.newResponse (housed hs) _).declare (housed hs).newResponse _ "response" _
      newObject := fun {_ className} hs _ ih => ih.newObject (housed hs) className
      define := fun {_ id name _} hs _ ih => ih.define (housed hs) id name _
      runBlock := fun {s steps _ block} hs hblock ih => by
        obtain ⟨rfl, hblock⟩ := hblock
        obtain ⟨hF, hC⟩ := hP block hblock
        rw [store_perform]
        exact (declares_traced hrules hs ih hF (hs.globals_eq ▸ hC) steps).1 }

/-! ## programs without classes -/

theorem hereditary_isClassFree :
    Hereditary (fun d => d.body.isClassFree = true) fun _ _ => False where
  functions hd hf := (Block.declared_of_isClassFree hd).2 _ hf
  classes hd hk := by
    rw [Block.classes, (Block.declared_of_isClassFree hd).1] at hk
    cases hk
  methods h := h.elim

/-- closures keep their scopes: in programs without classes every statement starts with its scope
and all scopes around it alive, and no run ends because a scope is gone -/
theorem closures_keep_scopes {s : Session} (hs : s.Hosted (·.isClassFree = true)) {block : Block}
    (hblock : block.isClassFree = true) (steps : Nat) :
    let ended := s.perform steps (runBlock s.globals block)
    ((s.traced steps block).1 = ended.1 ∧
      (s.traced steps block).2.machine = ⟨ended.2.2.store, ended.2.1, ended.2.2.output⟩) ∧
    (∀ l, ended.1 ≠ .error ⟨l, .scopeDropped⟩) ∧
    ∀ c l held store, .start c l held store ∈ (s.traced steps block).2.log →
      ∀ p ∈ c :: (store.scope c).outer, store.alive held (.scope p) = true := by
  intro ended
  have hdeclared : ∀ b : Block, b.isClassFree = true →
      (∀ d ∈ b.functions, d.body.isClassFree = true) ∧ ∀ k ∈ b.classes, False := by
    intro b hb
    obtain ⟨hclasses, hfunctions⟩ := Block.declared_of_isClassFree hb
    exact ⟨hfunctions, fun k hk => by rw [Block.classes, hclasses] at hk; cases hk⟩
  obtain ⟨hlast, hall⟩ := hs.declares_traced hereditary_isClassFree
    (hs.declares hereditary_isClassFree hdeclared) (hdeclared block hblock).1
    (hdeclared block hblock).2 steps
  have hkept := kept_of_housed hs.housed steps block
  have hended := s.traced_eq steps block
  refine ⟨hended, fun l hdropped => ?_, fun c l held store hevent p hp => ?_⟩
  · obtain ⟨o, own, ho, -⟩ := hkept.error _ (hended.1.trans hdropped) rfl
    obtain ⟨-, -, hnone, -⟩ := hlast.inside o own ho
    exact hnone
  · obtain ⟨log, hlog, hpath⟩ := hkept.path
    obtain rfl : (s.traced steps block).2.log = log := hlog
    rcases hpath.start_of_mem hevent p hp with hmem | ⟨o, own, ho, -⟩
    · exact store.alive_of_mem hmem
    · obtain ⟨-, -, hnone, -⟩ :=
        (hall _ hevent store (List.mem_singleton.mpr rfl)).2.inside o own ho
      exact hnone.elim

/-- a function that counts in a variable of the function around it -/
def countingClosure : Block :=
  ⟨⟨"page", 1, 1⟩,
    [.function ⟨⟨"page", 1, 1⟩, .function, "outer", [⟨⟨"page", 1, 16⟩, "n", none⟩], ⟨⟨"page", 2, 3⟩,
      [.dim ⟨⟨"page", 2, 7⟩, "total"⟩,
      .assign ⟨"page", 3, 9⟩ (.path ⟨"page", 3, 3⟩ ["total"]) (.path ⟨"page", 3, 11⟩ ["n"]),
      .function ⟨⟨"page", 4, 3⟩, .function, "add", [⟨⟨"page", 4, 16⟩, "k", none⟩],
        ⟨⟨"page", 5, 5⟩, [.assign ⟨"page", 5, 11⟩ (.path ⟨"page", 5, 5⟩ ["total"])
          (.binary ⟨"page", 5, 19⟩ .add (.path ⟨"page", 5, 13⟩ ["total"])
            (.path ⟨"page", 5, 21⟩ ["k"]))]⟩⟩,
      .expr ⟨"page", 7, 3⟩ (.call ⟨"page", 7, 3⟩ (.path ⟨"page", 7, 3⟩ ["add"])
        [.literal ⟨"page", 7, 7⟩ (.integer 2)]),
      .assign ⟨"page", 8, 9⟩ (.path ⟨"page", 8, 3⟩ ["outer"]) (.path ⟨"page", 8, 11⟩ ["total"])]⟩⟩,
    .expr ⟨"page", 10, 1⟩ (.call ⟨"page", 10, 1⟩ (.path ⟨"page", 10, 1⟩ ["response", "write"])
      [.call ⟨"page", 10, 16⟩ (.path ⟨"page", 10, 16⟩ ["outer"])
        [.literal ⟨"page", 10, 22⟩ (.integer 1)]])]⟩

/-- the inner function has reached the variable of the outer one, in scopes that were alive -/
theorem closures_keep_scopes_countingClosure :
    let s := (start .default true).registerResponse
    let ended := s.perform 0 (runBlock s.globals countingClosure)
    ended.1 = .ok () ∧ ended.2.2.output = #[.integer 3] ∧
    ∀ c l held store, .start c l held store ∈ (s.traced 0 countingClosure).2.log →
      ∀ p ∈ c :: (store.scope c).outer, store.alive held (.scope p) = true := by
  intro s ended
  have hs : s.Hosted (·.isClassFree = true) := (Under.start _ _).registerResponse trivial
  have hblock : countingClosure.isClassFree = true := by decide
  have hkeep := closures_keep_scopes hs hblock 0
  exact ⟨by decide +kernel, by decide +kernel, hkeep.2.2⟩

/-! ## programs with all declarations at the top -/

theorem hereditary_declaresNone :
    Hereditary (fun d => d.body.declaresNone = true)
      fun c k => c = ⟨0⟩ ∧ ∀ method ∈ k.methods, method.body.declaresNone = true where
  functions hd hf := by
    rw [List.isEmpty_iff.mp (Bool.and_eq_true_iff.mp hd).1] at hf
    cases hf
  classes hd hk := by
    rw [List.isEmpty_iff.mp (Bool.and_eq_true_iff.mp hd).2] at hk
    cases hk
  methods hk hmethod := hk.2 _ hmethod

theorem declared_of_declaresAtTop {b : Block} (hb : b.declaresAtTop = true) :
    (∀ d ∈ b.functions, d.body.declaresNone = true) ∧
      ∀ k ∈ b.classes, (⟨0⟩ : ScopeId) = ⟨0⟩ ∧
        ∀ method ∈ k.methods, method.body.declaresNone = true := by
  obtain ⟨hfunctions, hclasses⟩ := Bool.and_eq_true_iff.mp hb
  refine ⟨List.all_eq_true.mp hfunctions, fun k hk => ⟨rfl, ?_⟩⟩
  exact List.all_eq_true.mp (List.all_eq_true.mp hclasses k hk)

/-- there is an instance with a method that is not alive any more, and neither is its scope -/
def LosesInstance (held : List Ref) (s : Store) : Prop :=
  ∃ o own f, (s.object o).scope = some own ∧ f.index < s.functions.size ∧
    homeOf (s.function f) = own ∧ s.alive held (.object o) = false ∧
    s.alive held (.scope own) = false

theorem alive_own {s : Store} {globals : ScopeId} (hs : s.Housed globals) {held : List Ref}
    {o : ObjectId} {own : ScopeId} (ho : (s.object o).scope = some own)
    (halive : s.alive held (.object o) = true) : s.alive held (.scope own) = true := by
  have hlt : o.index < s.objects.size := by
    by_contra hlt
    rw [Store.object_of_size_le (not_lt.mp hlt)] at ho
    cases ho
  refine s.alive_of_holds halive ?_ ?_ ?_
  · exact List.mem_append_right _ (List.mem_map.mpr ⟨o.index, List.mem_range.mpr hlt, rfl⟩)
  · refine List.mem_append_left _ (List.mem_append_left _ (List.mem_map.mpr ⟨own.index, ?_, rfl⟩))
    exact List.mem_range.mpr (hs.homed.owned o own ho)
  · exact List.mem_append_right _ (by simp [ho])

theorem outcome_call {env : Env} {m : Machine} {f : FunctionId} {args : List SlotId}
    (h : m.store.alive ({ env with held := args.map Ref.slot ++ env.held }.heldIn m)
      (.scope (homeOf (m.store.function f))) = true) (i : Invoke Eval) (l : Location) :
    (call i f args l).outcome env m = (callIn i (m.store.function f) args l).outcome env m := by
  have hread : (function f).outcome env m = (.ok (m.store.function f), m) := rfl
  have halive : (Runner.holding (args.map .slot) (Runner.step (isAlive (.scope (homeOf
      (m.store.function f))))) : Eval Bool).outcome env m = (.ok true, m) := by
    show (isAlive _).outcome { env with held := args.map Ref.slot ++ env.held } m = _
    rw [outcome_isAlive, h]
  show ((function f) >>= _ : Eval SlotId).outcome env m = _
  rw [outcome_bind, hread]
  show ((Runner.holding _ _) >>= _ : Eval SlotId).outcome env m = _
  rw [outcome_bind, halive]
  rfl

/-- what is lost where all classes and functions are declared at the top.

If a run ends because a scope is gone, then there is an instance with a method that is not alive any
more, and neither is its scope.  And wherever a run has got, what an instance or another object that
is alive has as a member can be called, if it is a function. -/
theorem lost_instances {s : Session} (hs : s.Hosted (·.declaresAtTop = true)) {block : Block}
    (hblock : block.declaresAtTop = true) (steps : Nat) :
    let ended := s.perform steps (runBlock s.globals block)
    (∀ l, ended.1 = .error ⟨l, .scopeDropped⟩ →
      LosesInstance (s.env.heldIn ⟨ended.2.2.store, ended.2.1, ended.2.2.output⟩)
        ended.2.2.store) ∧
    ∀ m : Machine, m.store = s.store ∨
        (∃ event ∈ (s.traced steps block).2.log, m.store ∈ event.stores) →
      ∀ held o n id f, .scope s.globals ∈ held →
        m.store.alive ({ s.env with held }.heldIn m) (.object o) = true →
        m.store.field? o n = some id → m.store.slot id = .function f →
        ∀ (i : Invoke Eval) args l,
          (call i f args l).outcome { s.env with held } m
            = (callIn i (m.store.function f) args l).outcome { s.env with held } m := by
  intro ended
  have hglobals := hs.globals_eq
  obtain ⟨hlast, hall⟩ := hs.declares_traced hereditary_declaresNone
    (hs.declares hereditary_declaresNone fun b => declared_of_declaresAtTop)
    (declared_of_declaresAtTop hblock).1 (hglobals ▸ (declared_of_declaresAtTop hblock).2) steps
  have hkept := kept_of_housed hs.housed steps block
  obtain ⟨hresult, hmachine⟩ := s.traced_eq steps block
  let last : Machine := ⟨ended.2.2.store, ended.2.1, ended.2.2.output⟩
  have hmachine : (s.traced steps block).2.machine = last := hmachine
  refine ⟨fun l hdropped => ?_, fun m hm held o n id f hheld halive hfield hslot i args l => ?_⟩
  · obtain ⟨o, own, ho, hlost⟩ := hkept.error _ (hresult.trans hdropped) rfl
    have hhoused : (s.traced steps block).2.machine.store.Housed s.globals := hkept.ok
    rw [hmachine] at hlast ho hlost hhoused
    rcases hlost with ⟨p, hp, hgone⟩ | ⟨hgone, f, hf, hhome⟩
    · -- only the global scope lies around an instance, and the host holds it
      obtain ⟨home, d, ⟨hhome, -⟩, houter⟩ := hlast.inside o own ho
      rw [houter, hhome, ← hglobals, hhoused.homed.outermost] at hp
      obtain rfl := List.mem_singleton.mp hp
      rw [last.store.alive_of_mem (s.env.mem_heldIn List.mem_cons_self last)] at hgone
      cases hgone
    · refine ⟨o, own, f, ho, hf, hhome, ?_, hgone⟩
      refine Bool.eq_false_iff.mpr fun halive => ?_
      exact Bool.eq_false_iff.mp hgone (alive_own hhoused ho halive)
  · have hhoused : m.store.Housed s.globals := by
      rcases hm with hm | ⟨event, hevent, hmem⟩
      · exact hm ▸ hs.housed
      · exact (hall event hevent m.store hmem).1
    have hhome : m.store.alive ({ s.env with held }.heldIn m)
        (.scope (homeOf (m.store.function f))) = true := by
      obtain ⟨-, hown | hglobal⟩ := hhoused.homed.field o n id f hfield hslot
      · exact alive_own hhoused hown halive
      · rw [hglobal]
        exact m.store.alive_of_mem ({ s.env with held }.mem_heldIn hheld m)
    have hmore : ∀ r ∈ held, r ∈ args.map Ref.slot ++ held := fun r hr => List.mem_append_right _ hr
    exact outcome_call (m.store.alive_mono (fun r hr => s.env.heldIn_mono hmore m hr) hhome) i l

/-- a class with a method `m`, a function `make` that yields an instance of it, and
`response.write make.m` -/
def droppedReceiver : Block :=
  ⟨⟨"page", 1, 1⟩,
    [.class ⟨⟨"page", 1, 1⟩, "C", [], [⟨⟨"page", 2, 3⟩, .function, "m", [], ⟨⟨"page", 3, 5⟩,
      [.assign ⟨"page", 3, 7⟩ (.path ⟨"page", 3, 5⟩ ["m"])
        (.literal ⟨"page", 3, 9⟩ (.integer 1))]⟩⟩]⟩,
    .function ⟨⟨"page", 6, 1⟩, .function, "make", [], ⟨⟨"page", 7, 3⟩,
      [.assign ⟨"page", 7, 12⟩ (.path ⟨"page", 7, 7⟩ ["make"]) (.new ⟨"page", 7, 14⟩ "C")]⟩⟩,
    .expr ⟨"page", 9, 1⟩ (.call ⟨"page", 9, 1⟩ (.path ⟨"page", 9, 1⟩ ["response", "write"])
      [.path ⟨"page", 9, 16⟩ ["make", "m"]])]⟩

theorem droppedReceiver_ends :
    ((start .default true).registerResponse.perform 0
        (runBlock (start .default true).registerResponse.globals droppedReceiver)).1
      = .error ⟨⟨"page", 9, 16⟩, .scopeDropped⟩ := by
  decide +kernel

/-- nothing holds the instance that `make` has just yielded when its method is called, so the call
is refused -/
theorem droppedReceiver_refused :
    let s := (start .default true).registerResponse
    droppedReceiver.declaresAtTop = true ∧
    (s.perform 0 (runBlock s.globals droppedReceiver)).1
      = .error ⟨⟨"page", 9, 16⟩, .scopeDropped⟩ :=
  ⟨by decide, droppedReceiver_ends⟩

/-- the instance of the refused call is not alive any more -/
theorem lost_instances_droppedReceiver :
    let s := (start .default true).registerResponse
    let ended := s.perform 0 (runBlock s.globals droppedReceiver)
    ended.1 = .error ⟨⟨"page", 9, 16⟩, .scopeDropped⟩ ∧
      LosesInstance (s.env.heldIn ⟨ended.2.2.store, ended.2.1, ended.2.2.output⟩)
        ended.2.2.store := by
  have hs : (start .default true).registerResponse.Hosted (·.declaresAtTop = true) :=
    (Under.start _ _).registerResponse trivial
  have hblock : droppedReceiver.declaresAtTop = true := by decide
  have hended := droppedReceiver_ends
  exact ⟨hended, (lost_instances hs hblock 0).1 _ hended⟩

end Session

end PageScript
