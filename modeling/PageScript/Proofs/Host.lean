import PageScript.Session

/-!
# Hosts

A host starts a session and then acts on it: it registers values and routines, creates objects and
scopes, pins things, and has blocks run and expressions evaluated.  Whatever is shown of all sessions
is shown for a host that keeps to certain rules, which say what it may do and when.

* `Hosting.Reaches`             what a host can bring about;
* `Hosting.Reaches.invariant`   what holds at the start and behind every act that is allowed;
* `Session.Under`               the sessions that come about under rules;
* `Session.Under.upheld`        what holds of all their stores, with one condition for each kind of
                                act that changes a store.
-/

namespace PageScript

/-- something that a host does -/
inductive HostAct
  | configure (config : Config)
  | pin (pinned : List Ref)
  | clearOutput
  | bring (f : Callback)
  | register (name : String) (v : Value)
  | registerResponse
  | newRoutine (name : String) (home : ScopeId) (routine : Routine)
  | newObject (className : String)
  | define (id : ObjectId) (name : String) (v : Value)
  | newGlobal (isExplicit : Bool)
  | newChild (parent : ScopeId)
  | runBlock (steps : Nat) (scope : ScopeId) (block : Block)
  | runExpr (steps : Nat) (scope : ScopeId) (e : Expr)

/-! ## what a host brings about -/

/-- how a host starts, what its acts lead to, and which of them it may do -/
structure Hosting (σ : Type) where
  start : Config → Bool → σ
  after : σ → HostAct → σ
  may : σ → HostAct → Prop

namespace Hosting

variable {σ τ : Type} {host : Hosting σ} {other : Hosting τ}

inductive Reaches (host : Hosting σ) : σ → Prop
  | start (config : Config) (records : Bool) : host.Reaches (host.start config records)
  | act {x : σ} (a : HostAct) : host.may x a → host.Reaches x → host.Reaches (host.after x a)

namespace Reaches

theorem invariant (I : σ → Prop) (hstart : ∀ config records, I (host.start config records))
    (hact : ∀ x a, host.Reaches x → host.may x a → I x → I (host.after x a)) {x : σ}
    (h : host.Reaches x) : I x := by
  induction h with
  | start config records => exact hstart config records
  | act a hmay hx ih => exact hact _ a hx hmay ih

/-- a host that may do what another one does brings about what the other one does -/
theorem map (f : σ → τ) (hstart : ∀ config records, other.Reaches (f (host.start config records)))
    (hact : ∀ x a, host.may x a → other.may (f x) a ∧ f (host.after x a) = other.after (f x) a)
    {x : σ} (h : host.Reaches x) : other.Reaches (f x) := by
  refine h.invariant (fun x => other.Reaches (f x)) hstart fun x a _ hmay ih => ?_
  obtain ⟨hother, hafter⟩ := hact x a hmay
  exact hafter ▸ ih.act a hother

end Reaches

end Hosting

/-! ## sessions -/

namespace Session

/-- the session that an act of the host leads to -/
def after (s : Session) : HostAct → Session
  | .configure config => { s with config }
  | .pin pinned => { s with pinned }
  | .clearOutput => s.clearOutput
  | .bring f => { s with callbacks := s.callbacks.push f }
  | .register name v => s.register name v
  | .registerResponse => s.registerResponse
  | .newRoutine name home routine => (s.change (·.newFunction (.host name home routine))).2
  | .newObject className => (s.change (·.newObject ⟨className, .empty, none⟩)).2
  | .define id name v => (s.change (·.define id name v)).2
  | .newGlobal isExplicit => (s.change (·.newGlobal isExplicit)).2
  | .newChild parent => (s.change (·.newChild parent none)).2
  | .runBlock steps scope block => (s.perform steps (Eval.runBlock scope block)).2.2
  | .runExpr steps scope e => (s.perform steps (Eval.runExpr scope e)).2.2

/-- the sessions that come about where the host keeps to rules -/
abbrev Under (may : Session → HostAct → Prop) (s : Session) : Prop :=
  (Hosting.mk start after may).Reaches s

namespace Under

variable {may may' : Session → HostAct → Prop} {s : Session}

theorem start (config : Config) (records : Bool) : (Session.start config records).Under may :=
  Hosting.Reaches.start config records

theorem act (h : s.Under may) (a : HostAct) (hmay : may s a) : (s.after a).Under may :=
  Hosting.Reaches.act a hmay h

theorem invariant (I : Session → Prop) (hstart : ∀ config records, I (Session.start config records))
    (hact : ∀ s a, s.Under may → may s a → I s → I (s.after a)) (h : s.Under may) : I s :=
  Hosting.Reaches.invariant I hstart hact h

theorem mono (hmay : ∀ s a, may s a → may' s a) (h : s.Under may) : s.Under may' :=
  h.invariant _ .start fun s a _ ha ih => act ih a (hmay s a ha)

theorem registerResponse (h : s.Under may) (hmay : may s .registerResponse) :
    s.registerResponse.Under may :=
  act h .registerResponse hmay

theorem registerRoutine (h : s.Under may) {name : String} {routine : Routine}
    (hroutine : may s (.newRoutine name s.globals routine))
    (hregister : ∀ s v, may s (.register name v)) : (s.registerRoutine name routine).Under may :=
  act (act h (.newRoutine name s.globals routine) hroutine) (.register name _) (hregister _ _)

theorem registerCallback (h : s.Under may) {name : String} {f : Callback} (hf : may s (.bring f))
    (hroutine : ∀ (s : Session) n, may s (.newRoutine name s.globals (.callback n)))
    (hregister : ∀ s v, may s (.register name v)) : (s.registerCallback name f).Under may :=
  registerRoutine (act h (.bring f) hf) (hroutine _ _) hregister

theorem globals_eq (h : s.Under may) : s.globals = ⟨0⟩ := by
  refine h.invariant (·.globals = ⟨0⟩) (fun _ _ => rfl) fun s a _ _ ih => ?_
  cases a <;> exact ih

/-- a session has only callbacks that the host may bring along -/
theorem callbacks {P : Callback → Prop} (hbring : ∀ s f, may s (.bring f) → P f)
    (h : s.Under may) : ∀ f ∈ s.callbacks, P f := by
  refine h.invariant (fun s => ∀ f ∈ s.callbacks, P f)
    (fun _ _ f hf => absurd hf (Array.not_mem_empty f)) fun s a _ hmay ih => ?_
  cases a with
  | bring f => exact Array.forall_mem_push.mpr ⟨hbring s f hmay, ih⟩
  | _ => exact ih

end Under

/-- an invariant of the store and its global scope, kept by all that the rules allow; what they
forbid needs no proof -/
structure Upholds (may : Session → HostAct → Prop) (I : ScopeId → Store → Prop) : Prop where
  start (isExplicit : Bool) : I ⟨0⟩ (Store.empty.newGlobal isExplicit).2
  register {s : Session} {name : String} {v : Value} : s.Under may → may s (.register name v) →
    I s.globals s.store → I s.globals (s.store.declare s.globals name v).2 := by
    exact fun _ h => h.elim
  registerResponse {s : Session} : s.Under may → may s .registerResponse →
    I s.globals s.store → I s.globals s.registerResponse.store := by
    exact fun _ h => h.elim
  newRoutine {s : Session} {name : String} {home : ScopeId} {routine : Routine} : s.Under may →
    may s (.newRoutine name home routine) →
    I s.globals s.store → I s.globals (s.store.newFunction (.host name home routine)).2 := by
    exact fun _ h => h.elim
  newObject {s : Session} {className : String} : s.Under may → may s (.newObject className) →
    I s.globals s.store → I s.globals (s.store.newObject ⟨className, .empty, none⟩).2 := by
    exact fun _ h => h.elim
  define {s : Session} {id : ObjectId} {name : String} {v : Value} : s.Under may →
    may s (.define id name v) →
    I s.globals s.store → I s.globals (s.store.define id name v).2 := by
    exact fun _ h => h.elim
  newGlobal {s : Session} {isExplicit : Bool} : s.Under may → may s (.newGlobal isExplicit) →
    I s.globals s.store → I s.globals (s.store.newGlobal isExplicit).2 := by
    exact fun _ h => h.elim
  newChild {s : Session} {parent : ScopeId} : s.Under may → may s (.newChild parent) →
    I s.globals s.store → I s.globals (s.store.newChild parent none).2 := by
    exact fun _ h => h.elim
  runBlock {s : Session} {steps : Nat} {scope : ScopeId} {block : Block} : s.Under may →
    may s (.runBlock steps scope block) → I s.globals s.store →
    I s.globals (s.perform steps (Eval.runBlock scope block)).2.2.store := by
    exact fun _ h => h.elim
  runExpr {s : Session} {steps : Nat} {scope : ScopeId} {e : Expr} : s.Under may →
    may s (.runExpr steps scope e) → I s.globals s.store →
    I s.globals (s.perform steps (Eval.runExpr scope e)).2.2.store := by
    exact fun _ h => h.elim

theorem Under.upheld {may : Session → HostAct → Prop} {I : ScopeId → Store → Prop} {s : Session}
    (h : s.Under may) (hI : Upholds may I) : I s.globals s.store := by
  refine h.invariant (fun s => I s.globals s.store) (fun config _ => hI.start config.isExplicit)
    fun s a hs hmay ih => ?_
  cases a with
  | register => exact hI.register hs hmay ih
  | registerResponse => exact hI.registerResponse hs hmay ih
  | newRoutine => exact hI.newRoutine hs hmay ih
  | newObject => exact hI.newObject hs hmay ih
  | define => exact hI.define hs hmay ih
  | newGlobal => exact hI.newGlobal hs hmay ih
  | newChild => exact hI.newChild hs hmay ih
  | runBlock => exact hI.runBlock hs hmay ih
  | runExpr => exact hI.runExpr hs hmay ih
  | _ => exact ih

end Session

end PageScript
