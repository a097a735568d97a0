import PageScript.Proofs.Program.Aim
import PageScript.Proofs.Store.Building

/-!
# The code in a store

What a run executes besides its own program it finds in the store: the bodies of functions, and
through its classes the methods of instances.  All of it has got there by a declaration, so it comes
from the programs that were run before.

* `Store.Code`            functions and classes of a store come from programs as `P` says;
* `Store.Code.hoist`, `Store.Code.newInstance`, `Store.Code.activate`
                          what is added when a program is run, an instance created, a function
                          entered.
-/

namespace PageScript

open Eval

namespace Store

/-- the functions and classes of a store come from programs as `P` says -/
structure Code (P : Block → Prop) (s : Store) : Prop where
  function : ∀ f d home, s.function f = .script d home → d.From P
  classes : ∀ c n k, (s.scope c).classes.find? n = some k → k.From P

namespace Code

variable {P : Block → Prop} {s s' : Store}

theorem empty : Store.empty.Code P := ⟨fun _ _ _ hf => (nomatch hf), fun _ _ _ hk => nomatch hk⟩

/-! ## single changes -/

theorem newSlot (h : s.Code P) (v : Value) : (s.newSlot v).2.Code P := ⟨h.function, h.classes⟩

theorem setSlot (h : s.Code P) (id : SlotId) (v : Value) : (s.setSlot id v).Code P :=
  ⟨h.function, h.classes⟩

theorem newObject (h : s.Code P) (o : Object) : (s.newObject o).2.Code P :=
  ⟨h.function, h.classes⟩

theorem addField (h : s.Code P) (o : ObjectId) (n : String) (id : SlotId) :
    (s.addField o n id).Code P := ⟨h.function, h.classes⟩

theorem define (h : s.Code P) (o : ObjectId) (n : String) (v : Value) :
    (s.define o n v).2.Code P := (h.newSlot v).addField o n _

/-- a routine of the host is no code -/
theorem newRoutine (h : s.Code P) (n : String) (home : ScopeId) (r : Routine) :
    (s.newFunction (.host n home r)).2.Code P := by
  refine ⟨fun f d x hf => ?_, h.classes⟩
  rw [function_newFunction] at hf
  split at hf
  · cases hf
  · exact h.function f d x hf

theorem newScope (h : s.Code P) (outer : List ScopeId) (isExplicit : Bool) (n : Option String) :
    (s.newScope outer isExplicit n).2.Code P :=
  ⟨h.function, fun c m k hk => h.classes c m k (s.classes_newScope outer isExplicit n hk)⟩

theorem newChild (h : s.Code P) (parent : ScopeId) (n : Option String) :
    (s.newChild parent n).2.Code P := h.newScope _ _ n

/-- what changes in a scope are not its classes -/
theorem modifyScope (h : s.Code P) (c : ScopeId) {f : Scope → Scope}
    (hf : ∀ sc, (f sc).classes = sc.classes) : (s.modifyScope c f).Code P := by
  refine ⟨h.function, fun x n k hk => h.classes x n k ?_⟩
  rw [scope_modifyScope] at hk
  split at hk
  · rwa [hf] at hk
  · exact hk

theorem bind (h : s.Code P) (c : ScopeId) (n : String) (id : SlotId) : (s.bind c n id).Code P :=
  h.modifyScope c fun _ => rfl

theorem declare (h : s.Code P) (c : ScopeId) (n : String) (v : Value) :
    (s.declare c n v).2.Code P := (h.newSlot v).bind c n _

theorem setExplicit (h : s.Code P) (c : ScopeId) (b : Bool) : (s.setExplicit c b).Code P :=
  h.modifyScope c fun _ => rfl

/-! ## declarations -/

/-- what furnishing a scope adds comes from programs as `P` says -/
theorem furnished {c : ScopeId} (h : s.Code P)
    (hsteps : s.Furnished (FunctionDecl.From P) (ClassDecl.From P) c s') : s'.Code P where
  function f d home hf := (hsteps.function f d home hf).elim (h.function f d home) fun hd => hd
  classes x n k hk := (hsteps.classes x n k hk).elim (h.classes x n k) fun hk => hk.2

theorem hoist (h : s.Code P) (c : ScopeId) {b : Block} (hF : ∀ d ∈ b.functions, d.From P)
    (hC : ∀ k ∈ b.classes, k.From P) : (b.hoist c s).Code P :=
  h.furnished (s.furnishes_hoist (c := c) hF hC).furnished

theorem opened (h : s.Code P) (k : ClassDecl) (home : ScopeId) : (s.opened k home).Code P :=
  ⟨h.function, fun c n k' hk' => h.classes c n k' (s.classes_opened k home hk')⟩

theorem newInstance (h : s.Code P) {k : ClassDecl} (hk : k.From P) (home : ScopeId) :
    (s.newInstance k home).2.Code P :=
  (h.opened k home).furnished
    (s.furnishes_newInstance k home fun _ hmethod => .method hk hmethod).furnished

/-- a function that is entered declares what its body does -/
theorem activate (h : s.Code P) (byRef : Bool) {d : FunctionDecl} (hd : d.From P) (home : ScopeId)
    (args : List SlotId) : (activate byRef d home args s).2.Code P := by
  have hparams : (bindParams byRef ⟨s.scopes.size⟩ d.params args
      (s.newChild home (resultName d)).2).Code P := by
    refine bindParams_induct (fun s' p arg _ _ h' => ?_) (fun s' p arg _ _ h' => ?_)
      (h.newChild home (resultName d))
    · exact h'.bind _ p.name arg
    · exact h'.declare _ p.name _
  exact hparams.hoist ⟨s.scopes.size⟩ (fun _ hd' => .body hd hd') fun _ hk => .body hd hk

end Code

end Store

end PageScript
