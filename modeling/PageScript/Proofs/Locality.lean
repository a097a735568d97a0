import PageScript.Proofs.Shelter
import PageScript.Proofs.Store.Reach

/-!
# What a run can change

As long as the host offers nothing but `response`, code gets at things by the ways that lead from the
scope where it runs, and changes nothing else.

* `confining`              runs keep to the region that their scope leads to;
* `Eval.effects_local`     what a block or a call can change.
-/

namespace PageScript

open Eval Runner

/-! ## the discipline -/

/-- all that is found, passed, called and changed belongs to a region that nothing leads out of -/
def confining (env : Env) (block : Block) (top : ScopeId) (R : Entity → Prop) (first : Store) :
    Discipline where
  env := env
  block := block
  top := top
  ok s := s.Offers (· = .write) ∧ Store.Confined R first s
  le := Store.Stays
  le_refl _ _ hx := hx
  le_trans h h' x hx := h x (h' x hx)
  quiet _ _ := True
  quiet_refl _ := trivial
  quiet_trans _ _ := trivial
  scope _ s c := R (.scope c) ∧ s.at? (.scope c) ≠ none
  scope_mono _ hle hc := ⟨hc.1, fun hnone => hc.2 (hle _ hnone)⟩
  value _ v := ∀ y, (Content.slot v).Leads y → R y
  value_mono _ hv := hv
  value_data {_ v} hv y hy := by cases hy <;> cases hv
  slot _ id := R (.slot id)
  slot_mono _ hid := hid
  value_slot hok hid y hy := hok.2.closed hid (Store.leads_slot hy)
  place _ _ id := R (.slot id)
  place_slot hid := hid
  slot_place _ hid _ := hid
  callable _ _ f := R (.function f)
  callable_mono _ hf := hf
  callable_place {_ _ _ f} hok hid hf :=
    hok.2.closed hid (Store.leads_slot (hf ▸ .function f))
  callable_value {_ _ f} hv := hv _ (.function f)
  moment _ _ _ := True
  admit_start _ _ := trivial
  error _ _ _ := True
  error_mono _ _ := trivial
  error_other _ := trivial
  error_outer _ _ _ _ := trivial
  error_home _ _ _ _ := trivial
  place_found {_ _ s c _ _ _} hok hc hfound := by
    obtain ⟨p, hp, hhere⟩ := s.exists_of_searchFrom hfound
    have hregion : R (.scope p) := hok.2.around hc.1 hp
    rcases Store.slot_of_findHere hhere with hbound | ⟨hlt, rfl⟩
    · exact hok.2.closed hregion (Store.leads_binding hbound)
    · exact hok.2.closed hregion (Store.leads_result hlt)
  value_owner {_ _ s c _ _ _} hok hc hfound y hy := by
    obtain ⟨p, hp, hhere⟩ := s.exists_of_searchFrom hfound
    have hregion : R (.scope p) := hok.2.around hc.1 hp
    cases hy with
    | object => exact hok.2.closed hregion (Store.leads_owner (Store.owner_of_findHere hhere).1)
  place_member {_ _ o _ _} hok ho hfield :=
    hok.2.closed (ho _ (.object o)) (Store.leads_field hfield)
  admit_newSlot {s v} hok hv :=
    ⟨⟨⟨hok.1, hok.2.newSlot hv⟩, (s.confined_everywhere.newSlot fun _ _ => trivial).stays, trivial⟩,
      hok.2.new s.at?_freshSlot⟩
  admit_setSlot {s _ _ _} hok hid hv :=
    ⟨⟨hok.1, hok.2.setSlot hid hv⟩,
      (s.confined_everywhere.setSlot trivial fun _ _ => trivial).stays, trivial⟩
  admit_declare {_ s _ n} hok hc _ := by
    have hempty : ∀ y, (Content.slot .empty).Leads y → R y :=
      fun y hy => absurd hy (Content.not_leads_empty y)
    exact ⟨⟨⟨hok.1, hok.2.declare hc.1 n hempty⟩,
      (s.confined_everywhere.declare trivial n fun _ _ => trivial).stays, trivial⟩,
      hok.2.new s.at?_freshSlot⟩
  admit_define {s o n _} hok ho _ hv :=
    ⟨⟨hok.1, hok.2.define (ho _ (.object o)) n hv⟩,
      (s.confined_everywhere.define trivial n fun _ _ => trivial).stays, trivial⟩
  admit_hoist {_ s} hok hc :=
    ⟨⟨hok.1.hoist top block, hok.2.hoist hc.1 block⟩,
      (s.confined_everywhere.hoist trivial block).stays⟩
  admit_newInstance {_ s c home _ d} hok hc hhome _ _ := by
    have hstays : s.Stays (s.newInstance d home).2 :=
      (s.confined_everywhere.newInstance d trivial).stays
    refine ⟨⟨⟨hok.1.newInstance d home, hok.2.newInstance d (hok.2.around hc.1 hhome)⟩, hstays⟩,
      fun y hy => ?_, hc.1, fun hnone => hc.2 (hstays _ hnone)⟩
    cases hy with
    | object => exact hok.2.new s.at?_freshObject
  admit_enter {_ s _ f d home args} hok _ hf hfunction _ hargs := by
    have hhome : R (.scope home) := hok.2.closed hf (Store.leads_home hfunction)
    have hpassed : ∀ {p : Param} {arg}, (p, arg) ∈ d.params.zip args → R (.slot arg) :=
      fun hp => hargs _ (List.of_mem_zip hp).2
    exact ⟨⟨⟨hok.1.activate _ d home args,
        hok.2.activate hhome (fun _ _ hp _ => hpassed hp) fun _ _ hp _ => .inl (hpassed hp)⟩,
      s.stays_activate _ d home args⟩, hok.2.new s.at?_freshScope, s.at?_activate _ d home args⟩
  slot_result hok hc := hok.2.closed hc.1 (Store.leads_result (Store.lt_of_at?_scope hc.2))
  admit_routine held {_ m _ f n home r args l} hok _ _ hfunction _ := by
    obtain rfl := hok.1 f n home r hfunction
    obtain ⟨hsame, hvalue, herror⟩ := Routine.write_spec l home args { env with held } m
    refine ⟨?_, fun v hv y hy => ?_, herror⟩
    · rw [hsame]
      exact ⟨hok, fun _ hx => hx, trivial⟩
    · rw [hvalue v hv] at hy
      exact absurd hy (Content.not_leads_empty y)

namespace Eval

variable {env : Env} {m : Machine}

/-- an evaluation stays in a region if the same evaluation, traced, keeps to the discipline -/
theorem confined_of_keeps {α : Type} {block : Block} {top : ScopeId} {R : Entity → Prop}
    {Q : Store → α → Prop} {x : Trace α} {y : Eval α}
    (hkeeps : (confining env block top R m.store).Keeps env.held m.store Q x)
    (hmachine : (x.outcome env ⟨m, []⟩).2.machine = (y.outcome env m).2)
    (hwrite : m.store.Offers (· = .write)) (hconfined : Store.Confined R m.store m.store) :
    Store.Confined R m.store (y.outcome env m).2.store := by
  have hkept : (confining env block top R m.store).Kept env.held m.store [] Q
      (x.outcome env ⟨m, []⟩) :=
    hkeeps ⟨m, []⟩ rfl ⟨hwrite, hconfined⟩
  rw [← hmachine]
  exact hkept.ok.2

/-! ## blocks -/

section

variable {c : ScopeId} (hwrite : m.store.Offers (· = .write))
  (hc : m.store.at? (.scope c) ≠ none) (n : Nat) (block : Block)
include hwrite hc

theorem confined_execute :
    Store.Confined (m.store.Within (· = .scope c)) m.store
      ((execute (invoke n) c block).outcome env m).2.store := by
  let D := confining env block c (m.store.Within (· = .scope c)) m.store
  have hscope : D.scope env.held m.store c := ⟨.inr ⟨.scope c, rfl, .refl⟩, hc⟩
  have hkeeps : D.Keeps env.held m.store (fun _ _ => True) (execute (Trace.invoke n) c block) :=
    Discipline.execute (Discipline.invokes n) hscope block
  exact confined_of_keeps hkeeps (Trace.machine_execute n c block env ⟨m, []⟩) hwrite
    (m.store.confined_within _)

theorem confined_runWith :
    Store.Confined (m.store.Within (· = .scope c)) m.store
      ((runWith (invoke n) c block).outcome env m).2.store := by
  let D := confining env block c (m.store.Within (· = .scope c)) m.store
  have hscope : D.scope env.held m.store c := ⟨.inr ⟨.scope c, rfl, .refl⟩, hc⟩
  have hkeeps : D.Keeps env.held m.store (fun _ _ => True) (runWith (Trace.invoke n) c block) :=
    Discipline.runWith (D := D) (Discipline.invokes n) hscope
  exact confined_of_keeps hkeeps (Trace.machine_runWith n c block env ⟨m, []⟩) hwrite
    (m.store.confined_within _)

end

/-! ## calls -/

/-- where a call of a function starts from: the scope that the function belongs to, the slots that
are passed by reference, and what is in the slots that are passed -/
inductive Passed (byRef : Bool) (d : FunctionDecl) (home : ScopeId) (args : List SlotId)
    (s : Store) : Entity → Prop
  | home : Passed byRef d home args s (.scope home)
  | byRef {p : Param} {arg : SlotId} : (p, arg) ∈ d.params.zip args →
    p.byRef.getD byRef = true → Passed byRef d home args s (.slot arg)
  | value {arg : SlotId} {y : Entity} : arg ∈ args → s.Leads (.slot arg) y →
    Passed byRef d home args s y

section

variable {first : Store} {f : FunctionId} {d : FunctionDecl} {home : ScopeId} {args : List SlotId}
  {held : List Ref}

/-- the region that a call starts from -/
abbrev calling (env : Env) (d : FunctionDecl) (home : ScopeId) (args : List SlotId)
    (first : Store) : Discipline :=
  confining env d.body home (first.Within (Passed env.config.byRef d home args first)) first

/-- a function runs in the region that its call starts from, although the slots of its arguments may
lie outside -/
theorem keeps_invoke (n : Nat) (l : Location) :
    (calling env d home args first).Keeps held first (fun _ _ => True)
      (Trace.invoke n d home args l) := by
  have hstart : ∀ x, Passed env.config.byRef d home args first x →
      first.Within (Passed env.config.byRef d home args first) x :=
    fun x hx => .inr ⟨x, hx, .refl⟩
  cases n with
  | zero =>
    refine Discipline.keeps_step (p := refuseCall l) ?_
    rintro m rfl hok
    exact ⟨⟨hok, Discipline.le_refl _ _, .quiet trivial⟩, fun _ _ => trivial, fun _ _ => trivial⟩
  | succ n =>
    refine Discipline.Keeps.bind
      (Q := fun s' act => (calling env d home args first).scope
        (.scope home :: .scope act :: held) s' act) (Discipline.keeps_step ?_) ?_
    · rintro m rfl ⟨hwrite, hconfined⟩
      have hentered := hconfined.activate (hstart _ .home)
        (fun p arg hp hpassed => hstart _ (.byRef hp hpassed))
        fun p arg hp _ => .inr fun y hy => hstart y (.value (List.of_mem_zip hp).2 hy)
      refine ⟨⟨⟨hwrite.activate _ d home args, hentered⟩, m.store.stays_activate _ d home args,
        .quiet trivial⟩, ?_, fun _ _ => trivial⟩
      intro act hact
      obtain rfl := Except.ok.inj hact
      exact ⟨hconfined.new m.store.at?_freshScope, m.store.at?_activate _ d home args⟩
    · intro s₁ act _ _ hact
      refine Discipline.Keeps.bind (Q := fun _ _ => True)
        (Discipline.Keeps.holding _ (Discipline.execute (Discipline.invokes n) hact d.body)) ?_
      intro s₂ _ _ _ _
      exact (Discipline.keeps_reading fun s => (s.scope act).result).imp fun _ _ _ _ => trivial

theorem keeps_call (hfunction : first.function f = .script d home) (n : Nat) (l : Location) :
    (calling env d home args first).Keeps held first (fun _ _ => True)
      (call (Trace.invoke n) f args l) := by
  refine Discipline.Keeps.bind (Discipline.keeps_reading (·.function f)) ?_
  rintro _ _ - - ⟨rfl, rfl⟩
  refine Discipline.keeps_ifAlive l (fun _ _ _ => ?_) fun _ _ _ _ => trivial
  rw [hfunction]
  simp only [callIn]
  split
  · exact keeps_invoke n l
  · exact Discipline.keeps_fail (by rintro ⟨⟩)

end

theorem confined_call (hwrite : m.store.Offers (· = .write)) {f : FunctionId} {d : FunctionDecl}
    {home : ScopeId} (hfunction : m.store.function f = .script d home) (n : Nat)
    (args : List SlotId) (l : Location) :
    Store.Confined (m.store.Within (Passed env.config.byRef d home args m.store)) m.store
      ((call (invoke n) f args l).outcome env m).2.store :=
  confined_of_keeps (keeps_call hfunction n l) (Trace.machine_call n f args l env ⟨m, []⟩)
    hwrite (m.store.confined_within _)

/-! ## what is changed -/

/-- effects are local: what is there, and cannot be reached from where code starts, stays what it is.

A block, with or without its declarations, starts from the scope where it runs.  A function that is
called starts from the scope that it belongs to, from the slots that are passed by reference and from
what is in the slots that are passed; so a variable that is passed by value only changes if it can be
reached from there. -/
theorem effects_local (env : Env) {m : Machine} (hwrite : m.store.Offers (· = .write)) (n : Nat)
    {x : Entity} (hx : m.store.at? x ≠ none) :
    (∀ c block, m.store.at? (.scope c) ≠ none → ¬ m.store.Reaches (· = .scope c) x →
      ((runWith (invoke n) c block).outcome env m).2.store.at? x = m.store.at? x ∧
      ((execute (invoke n) c block).outcome env m).2.store.at? x = m.store.at? x) ∧
    ∀ f d home args l, m.store.function f = .script d home →
      ¬ m.store.Reaches (Passed env.config.byRef d home args m.store) x →
      ((call (invoke n) f args l).outcome env m).2.store.at? x = m.store.at? x := by
  have houtside : ∀ {roots : Entity → Prop}, ¬ m.store.Reaches roots x →
      ¬ m.store.Within roots x := by
    rintro roots hreaches (hnone | hwithin)
    · exact hx hnone
    · exact hreaches hwithin
  refine ⟨fun c block hc hreaches => ⟨?_, ?_⟩, fun f d home args l hfunction hreaches => ?_⟩
  · exact (confined_runWith hwrite hc n block).same x (houtside hreaches)
  · exact (confined_execute hwrite hc n block).same x (houtside hreaches)
  · exact (confined_call hwrite hfunction n args l).same x (houtside hreaches)

/-- `sub f(byval p) : p = 7 : end sub` -/
def overwriting : FunctionDecl :=
  ⟨⟨"page", 1, 1⟩, .sub, "f", [⟨⟨"page", 1, 7⟩, "p", some false⟩], ⟨⟨"page", 2, 3⟩,
    [.assign ⟨"page", 2, 5⟩ (.path ⟨"page", 2, 3⟩ ["p"])
      (.literal ⟨"page", 2, 7⟩ (.integer 7))]⟩⟩

/-- a page that declares the function, and a slot with an integer that nothing leads to -/
def besidePage : SlotId × Store :=
  let s := (Session.start .default true).registerResponse
  Store.newSlot (Block.hoist s.globals s.store ⟨⟨"page", 1, 1⟩, [.function overwriting]⟩) (.integer 1)

/-- the function has changed its parameter, and neither the function nor its body, run at the top,
the slot that was passed -/
theorem effects_local_overwriting :
    let s := (Session.start .default true).registerResponse
    let m : Machine := ⟨besidePage.2, 0, #[]⟩
    m.store.function ⟨1⟩ = .script overwriting s.globals ∧
    ((call (invoke 1) ⟨1⟩ [besidePage.1] default).outcome s.env m).1.toOption.isSome = true ∧
    ((call (invoke 1) ⟨1⟩ [besidePage.1] default).outcome s.env m).2.store.at?
      (.slot besidePage.1) = some (.slot (.integer 1)) ∧
    ((runWith (invoke 1) s.globals overwriting.body).outcome s.env m).2.store.at?
      (.slot besidePage.1) = some (.slot (.integer 1)) := by
  intro s m
  have hs : s.Hosted fun _ => True := (Session.Under.start _ _).registerResponse trivial
  have hbefore := hs.housed.hoist hs.housed.homed.there
    ⟨⟨"page", 1, 1⟩, [.function overwriting]⟩
  have hfunction : m.store.function ⟨1⟩ = .script overwriting s.globals := rfl
  have hslot : m.store.at? (.slot besidePage.1) = some (.slot (.integer 1)) := rfl
  have hunled : ∀ y, ¬ m.store.Leads y (.slot besidePage.1) :=
    hbefore.inOrder.not_leads_newSlot (.integer 1)
  have hwrite : m.store.Offers (· = .write) := hbefore.homed.routine
  have hlocal := effects_local s.env hwrite 1 (x := .slot besidePage.1)
    (hslot ▸ Option.some_ne_none _)
  refine ⟨hfunction, by decide +kernel, ?_, ?_⟩
  · refine (hlocal.2 ⟨1⟩ _ _ [besidePage.1] default hfunction fun hreaches => ?_).trans hslot
    rcases hreaches.root_or_leads with hroot | ⟨y, hy⟩
    · cases hroot with
      | byRef hp hpassed =>
        obtain ⟨rfl, -⟩ := Prod.mk.inj (List.mem_singleton.mp hp)
        cases hpassed
      | value _ hy => exact hunled _ hy
    · exact hunled y hy
  · refine (hlocal.1 s.globals overwriting.body (Option.some_ne_none _) fun hreaches => ?_).1.trans
      hslot
    rcases hreaches.root_or_leads with hroot | ⟨y, hy⟩
    · cases hroot
    · exact hunled y hy

end Eval

end PageScript
