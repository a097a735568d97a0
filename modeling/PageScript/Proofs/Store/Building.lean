import PageScript.Proofs.Store.Growth

/-!
# Building up a store

What a block declares, what a call binds and what an instance is made of is put into the store one
thing after the other.  So a property that every single one of them keeps is kept by all of them
together; these are the inductions, each of them once.

* `Store.Declaring`            what every declaration in a scope keeps;
* `Store.hoist_induct`         the declarations of a block;
* `Store.bindParams_induct`    the parameters of a call, each by reference or by value;
* `Store.activate_induct`      the activation of a function;
* `Store.newInstance_induct`   a new instance, with the names of the members that it has so far.

None of it adds to what the host offers (`Store.Offers`).
-/

namespace PageScript

open Eval

namespace Store

variable {s : Store}

/-! ## declarations -/

/-- every declaration in a scope keeps a property of the store -/
structure Declaring (I : Store → Prop) (c : ScopeId) : Prop where
  dim : ∀ s n, I s → I (declare s c n .empty).2
  function : ∀ s d, I s → I (declareFunction s c d).2
  classDecl : ∀ s d, I s → I (declareClass s c d)
  explicit : ∀ s, I s → I (setExplicit s c true)

mutual
theorem hoistStmt_induct {I : Store → Prop} {c : ScopeId} (hI : Declaring I c) :
    ∀ (stmt : Stmt) {s : Store}, I s → I (stmt.hoist c s)
  | .dim d, s, h => by
    show I (s.hoistDim c d)
    unfold hoistDim
    split
    · exact h
    · exact hI.dim s d.name h
  | .function d, s, h => hI.function s d h
  | .class d, s, h => hI.classDecl s d h
  | .optionExplicit _, s, h => hI.explicit s h
  | .cond _ _ t e, _, h => hoist_induct hI e (hoist_induct hI t h)
  | .assign .., _, h => h
  | .expr .., _, h => h
  | .exit .., _, h => h

theorem hoistAll_induct {I : Store → Prop} {c : ScopeId} (hI : Declaring I c) :
    ∀ (stmts : List Stmt) {s : Store}, I s → I (Stmt.hoistAll c s stmts)
  | [], _, h => h
  | stmt :: stmts, _, h => hoistAll_induct hI stmts (hoistStmt_induct hI stmt h)

/-- what every declaration in a scope keeps, the declarations of a block keep -/
theorem hoist_induct {I : Store → Prop} {c : ScopeId} (hI : Declaring I c) :
    ∀ (b : Block) {s : Store}, I s → I (b.hoist c s)
  | ⟨_, stmts⟩, _, h => hoistAll_induct hI stmts h
end

/-! ## parameters -/

/-- what every parameter keeps, whether it is bound to the slot of its argument or to a new slot
with the value in it, the parameters of a call keep -/
theorem bindParams_induct {I : Store → Prop} {c : ScopeId} {byRef : Bool} {ps : List Param}
    {args : List SlotId}
    (hbyRef : ∀ s p arg, (p, arg) ∈ ps.zip args → p.byRef.getD byRef = true → I s →
      I (bind s c p.name arg))
    (hbyValue : ∀ s p arg, (p, arg) ∈ ps.zip args → p.byRef.getD byRef = false → I s →
      I (declare s c p.name (s.slot arg)).2) (h : I s) : I (bindParams byRef c ps args s) := by
  induction ps generalizing args s with
  | nil => exact h
  | cons p ps ih =>
    cases args with
    | nil => exact h
    | cons arg args =>
      have hfirst : (p, arg) ∈ (p :: ps).zip (arg :: args) := List.mem_cons_self
      have hrest : ∀ {s₁ : Store}, I s₁ → I (bindParams byRef c ps args s₁) := by
        intro s₁ h₁
        refine ih (fun s q x hq => ?_) (fun s q x hq => ?_) h₁
        · exact hbyRef s q x (List.mem_cons_of_mem _ hq)
        · exact hbyValue s q x (List.mem_cons_of_mem _ hq)
      cases hpassed : p.byRef.getD byRef with
      | true =>
        simp only [bindParams, hpassed, if_true]
        exact hrest (hbyRef s p arg hfirst hpassed h)
      | false =>
        simp only [bindParams, hpassed]
        exact hrest (hbyValue s p arg hfirst hpassed h)

/-- an activation is a new scope, then its parameters, then the declarations of the body -/
theorem activate_induct {I : Store → Prop} {byRef : Bool} {d : FunctionDecl} {home : ScopeId}
    {args : List SlotId} (hI : Declaring I ⟨s.scopes.size⟩)
    (hbyRef : ∀ s' p arg, (p, arg) ∈ d.params.zip args → p.byRef.getD byRef = true → I s' →
      I (bind s' ⟨s.scopes.size⟩ p.name arg))
    (hbyValue : ∀ s' p arg, (p, arg) ∈ d.params.zip args → p.byRef.getD byRef = false → I s' →
      I (declare s' ⟨s.scopes.size⟩ p.name (s'.slot arg)).2)
    (hnew : I (s.newChild home (resultName d)).2) : I (activate byRef d home args s).2 :=
  hoist_induct hI d.body (bindParams_induct hbyRef hbyValue hnew)

/-! ## members -/

theorem members_induct {α : Type} {I : List String → Store → Prop} {f : Store → α → Store}
    {n : α → String} (hf : ∀ names s a, I names s → I (names ++ [n a]) (f s a)) (as : List α)
    {names : List String} (h : I names s) : I (names ++ as.map n) (as.foldl f s) := by
  induction as generalizing names s with
  | nil => rwa [List.map_nil, List.append_nil]
  | cons a as ih =>
    rw [List.map_cons, List.append_cons]
    exact ih (hf names s a h)

/-- what holds of the bare instance, and goes on to hold with every member that is added, holds of
the instance -/
theorem newInstance_induct {I : List String → Store → Prop} {d : ClassDecl} {home : ScopeId}
    (hopened : I [] (s.opened d home))
    (hfield : ∀ names s' n, I names s' →
      I (names ++ [n]) (addMember s' ⟨s.objects.size⟩ ⟨s.scopes.size⟩ n .empty))
    (hmethod : ∀ names s' method, I names s' →
      I (names ++ [method.name]) (addMethod s' ⟨s.objects.size⟩ ⟨s.scopes.size⟩ method)) :
    I d.memberNames (s.newInstance d home).2 := by
  have hfields : I (d.fields.map (·.name)) (d.fields.foldl
      (fun s' field => s'.addMember ⟨s.objects.size⟩ ⟨s.scopes.size⟩ field.name .empty)
      (s.opened d home)) :=
    members_induct (n := Dim.name) (fun names s' field => hfield names s' field.name) d.fields
      hopened
  exact members_induct (n := FunctionDecl.name) hmethod d.methods hfields

/-! ## what the host offers -/

section

variable {P : Routine → Prop} {c : ScopeId}

theorem Offers.newFunction (h : s.Offers P) (d : FunctionDecl) (c : ScopeId) :
    (s.newFunction (.script d c)).2.Offers P := by
  intro f n home r hf
  rw [function_newFunction] at hf
  split at hf
  · cases hf
  · exact h f n home r hf

theorem declaring_offers (c : ScopeId) : Declaring (Offers P) c where
  dim _ _ h := h
  function _ d h := h.newFunction d c
  classDecl _ _ h := h
  explicit _ h := h

theorem Offers.hoist (h : s.Offers P) (c : ScopeId) (b : Block) : (b.hoist c s).Offers P :=
  hoist_induct (declaring_offers c) b h

theorem Offers.newInstance (h : s.Offers P) (d : ClassDecl) (home : ScopeId) :
    (s.newInstance d home).2.Offers P :=
  newInstance_induct (I := fun _ => Offers P) h (fun _ _ _ h' => h')
    fun _ _ method h' => h'.newFunction method _

theorem Offers.activate (h : s.Offers P) (byRef : Bool) (d : FunctionDecl) (home : ScopeId)
    (args : List SlotId) : (activate byRef d home args s).2.Offers P :=
  activate_induct (declaring_offers _) (fun _ _ _ _ _ h' => h') (fun _ _ _ _ _ h' => h') h

end

end Store

end PageScript
