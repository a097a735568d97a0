import Mathlib.Data.List.Nodup
import PageScript.Proofs.Eval.Abreast
import PageScript.Proofs.Spelling

/-!
# Two ways of passing by value

An argument in parentheses is copied when it is evaluated; an argument that is a variable is copied
when the parameter is bound, after all arguments have been evaluated.  What the two ways copy is the
same unless an argument to the right changes the variable in between.

* `Session.Steady`               a run in which no argument that is picked is changed in between;
* `Session.run_copying`          in such a run, parentheses around the arguments that are picked
                                 change nothing;
* `Session.passScript_assigned`  they do where an argument to the right assigns to the variable.
-/

namespace PageScript

open Eval

/-! ## sessions before a run -/

/-- every slot is its own counterpart -/
def Pairing.same (n : Nat) : Pairing := ⟨(List.range n).map SlotId.mk, []⟩

theorem Pairing.push_same (n : Nat) : (Pairing.same n).push ⟨n⟩ = Pairing.same (n + 1) := by
  rw [push, same, same, List.range_succ, List.map_append]
  rfl

theorem Pairing.pairs_same {n : Nat} {i : SlotId} (h : i.index < n) : (same n).Pairs i i := by
  show ((List.range n).map SlotId.mk)[i.index]? = some i
  rw [List.getElem?_map, List.getElem?_range h]
  rfl

theorem Pairing.Pairs.eq_of_same {n : Nat} {i j : SlotId} (h : (same n).Pairs i j) : i = j := by
  have hj : ((List.range n).map SlotId.mk)[i.index]? = some j := h
  have hlt : i.index < n := by simpa [same] using h.lt
  rw [List.getElem?_map, List.getElem?_range hlt] at hj
  exact Option.some.inj hj

theorem Store.slotsPaired_same (s : Store) (h : 0 < s.slots.size) :
    s.SlotsPaired (.same s.slots.size) s where
  image_length := by simp [Pairing.same]
  image_nodup := by
    refine List.Nodup.map (fun i j hij => ?_) List.nodup_range
    exact SlotId.mk.inj hij
  image_lt := by simp [Pairing.same]
  slot_eq hij := by rw [hij.eq_of_same]
  copy hj := nomatch hj
  first := Pairing.pairs_same h

/-- a store is paired with itself, if nothing in it has arguments that are picked -/
def Store.SelfPaired (chosen : Location → Bool) (s : Store) : Prop :=
  s.Paired chosen (.same s.slots.size) s

variable {chosen : Location → Bool}

namespace Store.SelfPaired

variable {s : Store} (h : s.SelfPaired chosen)
include h

omit h in
theorem of_push {t : Store}
    (ht : t.Paired chosen ((Pairing.same s.slots.size).push ⟨s.slots.size⟩) t)
    (hsize : t.slots.size = s.slots.size + 1) : t.SelfPaired chosen := by
  rw [SelfPaired, hsize, ← Pairing.push_same]
  exact ht

theorem declare (id : ScopeId) (n : String) (v : Value) :
    (s.declare id n v).2.SelfPaired chosen :=
  of_push (Store.Paired.declare h id n v) (Array.size_push v)

theorem define (id : ObjectId) (n : String) (v : Value) :
    (s.define id n v).2.SelfPaired chosen :=
  of_push (Store.Paired.define h id n v) (Array.size_push v)

theorem newObject (className : String) :
    (s.newObject ⟨className, .empty, none⟩).2.SelfPaired chosen :=
  Store.Paired.newObject h ⟨rfl, .nil, rfl⟩

theorem newRoutine (name : String) (home : ScopeId) :
    (s.newFunction (.host name home .write)).2.SelfPaired chosen :=
  Store.Paired.newFunction (f := .host name home .write) h rfl

end Store.SelfPaired

theorem Store.selfPaired_newGlobal (isExplicit : Bool) :
    (Store.empty.newGlobal isExplicit).2.SelfPaired chosen where
  toSlotsPaired := slotsPaired_same _ Nat.one_pos
  scopes := rfl
  objects := rfl
  functions := rfl
  scope id := by
    have hfirst : (Pairing.same 1).Pairs ⟨0⟩ ⟨0⟩ := Pairing.pairs_same Nat.one_pos
    rw [newGlobal, scope_newScope]
    split
    · exact ⟨rfl, .nil, .nil, rfl, hfirst, rfl, rfl⟩
    · exact ⟨rfl, .nil, .nil, rfl, hfirst, rfl, rfl⟩
  object _ := ⟨rfl, .nil, rfl⟩
  function _ := rfl
  routine _ := rfl

namespace Session

theorem Prepared.selfPaired {s : Session} (h : s.Prepared) : s.store.SelfPaired chosen :=
  h.upheld (I := fun _ store => store.SelfPaired chosen)
    { start := Store.selfPaired_newGlobal
      register := fun {_ name v} _ _ ih => ih.declare _ name v
      registerResponse := fun {s} _ _ ih =>
        (((ih.newRoutine "write" s.globals).newObject "Response").define _ _ _).declare _ _ _
      newObject := fun {_ className} _ _ ih => ih.newObject className
      define := fun {_ id name v} _ _ ih => ih.define id name v }

/-! ## runs -/

/-- the guarded run of a program is not broken off: whenever an argument that is picked is passed,
it is passed to a script function for a parameter that is bound by value, and as long as the
arguments to its right are evaluated its slot keeps its value -/
def Steady (s : Session) (pick : Location → Bool) (b : Block) : Prop :=
  ((Guarded.runBlock s.globals b).outcome ⟨s.env, pick, []⟩ ⟨s.store, 0, s.output⟩).1
    ≠ .error .broken

instance (s : Session) (pick : Location → Bool) (b : Block) : Decidable (s.Steady pick b) :=
  inferInstanceAs (Decidable (_ ≠ _))

/-- a guarded run of a program goes along with a run of the program with parentheses around some of
the arguments that are picked -/
theorem Prepared.goes {s : Session} (hs : s.Prepared) (hpinned : ∀ r ∈ s.pinned, r ∈ s.store.refs)
    (chosen pick : Location → Bool) (hchosen : ∀ l, chosen l = true → pick l = true) (b : Block) :
    Goes chosen ⟨s.config, s.records, s.callbacks, pick, [], s.env.held, s.env.held⟩
      (.same s.store.slots.size) Equal
      ((Guarded.runBlock s.globals b).outcome ⟨s.env, pick, []⟩ ⟨s.store, 0, s.output⟩)
      ((runBlock s.globals (b.copying chosen)).outcome s.env ⟨s.store, 0, s.output⟩) := by
  have hheld : ∀ r ∈ s.env.held, RefKept (.same s.store.slots.size) [] r r := by
    intro r hr
    cases r with
    | scope id => exact .scope id
    | object id => exact .object id
    | slot id =>
      rcases List.mem_cons.mp hr with hr | hr
      · cases hr
      · have hfits := (s.store.fits_unmarked _).mpr (hpinned _ hr)
        exact .slot (Pairing.pairs_same (by simpa [Store.unmarked, Marks.Fits] using hfits))
  have h : Stage.Abreast chosen ⟨s.config, s.records, s.callbacks, pick, [], s.env.held, s.env.held⟩
      ⟨.same s.store.slots.size, ⟨s.store, 0, s.output⟩, ⟨s.store, 0, s.output⟩⟩ :=
    ⟨hchosen, ⟨hs.selfPaired, rfl, rfl⟩, List.forall_mem_nil _, List.forall₂_same.mpr hheld⟩
  exact alongside_runBlock h s.globals b

end Session

/-! ## what is observed -/

section

variable {w : Pairing}

theorem Store.Paired.memberValue {s s' : Store} (h : s.Paired chosen w s') (id : ObjectId)
    (n : String) : (s.field? id n).map s.slot = (s'.field? id n).map s'.slot := by
  have hfield := h.field? id n
  generalize s.field? id n = found at hfield ⊢
  generalize s'.field? id n = found' at hfield ⊢
  cases hfield with
  | none => rfl
  | some hij => exact congrArg some (h.slot_eq hij)

theorem Session.globalValues_of_paired {s s' : Session} (h : s.store.Paired chosen w s'.store)
    (hglobals : s.globals = s'.globals) : s.globalValues = s'.globalValues := by
  have hbindings := (h.scope s.globals).bindings
  have hvalue (n : String) : ((s.store.scope s.globals).bindings.find? n).map
      (fun slot => (n, s.store.slot slot))
      = ((s'.store.scope s.globals).bindings.find? n).map fun slot => (n, s'.store.slot slot) := by
    have hfound := hbindings.find? (rfl : Text.fold n = _)
    generalize (s.store.scope s.globals).bindings.find? n = found at hfound ⊢
    generalize (s'.store.scope s.globals).bindings.find? n = found' at hfound ⊢
    cases hfound with
    | none => rfl
    | some hij => exact congrArg (fun v => some (n, v)) (h.slot_eq hij)
  unfold globalValues
  rw [← hglobals]
  dsimp only
  rw [hbindings.names_eq]
  simp only [hvalue]

end

theorem RuntimeError.Copied.eq_of_nowhere {e e' : RuntimeError}
    (h : e.Copied (fun _ => false) e') : e = e' := by
  cases h with
  | same _ => rfl
  | notCallable l e => rw [Expr.copying_nowhere]

/-- without a parenthesis more, a guarded run ends as the run along with which it goes -/
theorem Goes.ends {α : Type} {c : Terms} {w : Pairing} {g : Except Breach α × Machine}
    {o : Except RuntimeError α × Machine} (h : Goes (fun _ => false) c w Equal g o)
    (hg : g.1 ≠ .error .broken) :
    g.1 = o.1.mapError .error ∧ g.2.steps = o.2.steps ∧ g.2.output = o.2.output := by
  cases h with
  | broken => exact absurd rfl hg
  | error he hm =>
    rw [he.eq_of_nowhere]
    exact ⟨rfl, hm.steps, hm.output⟩
  | ok _ h hab => exact ⟨congrArg Except.ok hab, h.machine.steps, h.machine.output⟩

namespace Session

/-- what is the same in two runs: how they end, up to an expression that an error quotes as it
stands in the program; how many statements they start; what they write; and the values of the global
names and of the members of objects -/
structure SameEnding (pick : Location → Bool)
    (ended ended' : Except RuntimeError Unit × Nat × Session) : Prop where
  result : Matches (RuntimeError.Copied pick) Eq ended.1 ended'.1
  steps : ended.2.1 = ended'.2.1
  output : ended.2.2.output = ended'.2.2.output
  globalValues : ended.2.2.globalValues = ended'.2.2.globalValues
  memberValue : ∀ id n, (ended.2.2.store.field? id n).map ended.2.2.store.slot
    = (ended'.2.2.store.field? id n).map ended'.2.2.store.slot

/-- how a run of a session ends, from what it leaves -/
def ending (s : Session) (o : Except RuntimeError Unit × Machine) :
    Except RuntimeError Unit × Nat × Session :=
  (o.1, o.2.steps, { s with store := o.2.store, output := o.2.output })

/-- machines that are paired with one and the same -/
theorem sameEnding_of_paired (s : Session) {pick : Location → Bool} {w w' : Pairing}
    {m m₁ m₂ : Machine} {r r' : Except RuntimeError Unit}
    (hr : Matches (RuntimeError.Copied pick) Eq r r') (h₁ : m.Paired (fun _ => false) w m₁)
    (h₂ : m.Paired pick w' m₂) : SameEnding pick (s.ending (r, m₁)) (s.ending (r', m₂)) where
  result := hr
  steps := h₁.steps.symm.trans h₂.steps
  output := h₁.output.symm.trans h₂.output
  globalValues := by
    have hleft : { s with store := m.store }.globalValues
        = { s with store := m₁.store, output := m₁.output }.globalValues :=
      globalValues_of_paired h₁.store rfl
    have hright : { s with store := m.store }.globalValues
        = { s with store := m₂.store, output := m₂.output }.globalValues :=
      globalValues_of_paired h₂.store rfl
    exact hleft.symm.trans hright
  memberValue id n := (h₁.store.memberValue id n).symm.trans (h₂.store.memberValue id n)

/-- two runs along with which one and the same guarded run goes -/
theorem sameEnding_of_goes (s : Session) {pick : Location → Bool} {c : Terms} {w : Pairing}
    {g : Except Breach Unit × Machine} {o o' : Except RuntimeError Unit × Machine}
    (hg : g.1 ≠ .error .broken) (hplain : Goes (fun _ => false) c w Equal g o)
    (hcopied : Goes pick c w Equal g o') : SameEnding pick (s.ending o) (s.ending o') := by
  cases hplain with
  | broken => exact absurd rfl hg
  | error he hm =>
    cases hcopied with
    | error he' hm' => exact s.sameEnding_of_paired (.error (he.eq_of_nowhere ▸ he')) hm hm'
  | ok _ h hab =>
    cases hcopied with
    | ok _ h' hab' =>
      exact s.sameEnding_of_paired (.ok (hab.symm.trans hab')) h.machine h'.machine

theorem Steady.ends {s : Session} {pick : Location → Bool} {b : Block} (h : s.Steady pick b)
    (hs : s.Prepared) (hpinned : ∀ r ∈ s.pinned, r ∈ s.store.refs) :
    let g := (Guarded.runBlock s.globals b).outcome ⟨s.env, pick, []⟩ ⟨s.store, 0, s.output⟩
    let ended := s.perform 0 (runBlock s.globals b)
    g.1 = ended.1.mapError .error ∧ g.2.steps = ended.2.1 ∧ g.2.output = ended.2.2.output := by
  have hplain := hs.goes hpinned (fun _ => false) pick (fun _ h => nomatch h) b
  rw [Block.copying_nowhere] at hplain
  exact hplain.ends h

/-- **parentheses around arguments that are passed by value change nothing**, in a run where the
slots of these arguments keep their values as long as the arguments to the right are evaluated.
`pick` says at which locations the arguments stand; everything that the host has pinned is there. -/
theorem run_copying {s : Session} (hs : s.Prepared) (hpinned : ∀ r ∈ s.pinned, r ∈ s.store.refs)
    (pick : Location → Bool) {b : Block} (hsteady : s.Steady pick b) :
    SameEnding pick (s.perform 0 (runBlock s.globals b))
      (s.perform 0 (runBlock s.globals (b.copying pick))) := by
  -- the guarded run goes along with either of them
  have hplain := hs.goes hpinned (fun _ => false) pick (fun _ h => nomatch h) b
  have hcopied := hs.goes hpinned pick pick (fun _ h => h) b
  rw [Block.copying_nowhere] at hplain
  exact s.sameEnding_of_goes hsteady hplain hcopied

/-- a variable that is passed by value, in front of a call of a function that assigns to a name -/
def passScript (assigned : String) : Block :=
  ⟨⟨"t", 1, 1⟩,
    [.assign ⟨"t", 1, 3⟩ (.path ⟨"t", 1, 1⟩ ["x"]) (.literal ⟨"t", 1, 5⟩ (.integer 1)),
    .function ⟨⟨"t", 2, 1⟩, .function, "g", [], ⟨⟨"t", 3, 1⟩,
      [.assign ⟨"t", 3, 3⟩ (.path ⟨"t", 3, 1⟩ [assigned]) (.literal ⟨"t", 3, 5⟩ (.integer 2))]⟩⟩,
    .function ⟨⟨"t", 5, 1⟩, .sub, "f",
      [⟨⟨"t", 5, 13⟩, "a", some false⟩, ⟨⟨"t", 5, 22⟩, "b", some false⟩], ⟨⟨"t", 6, 1⟩,
      [.expr ⟨"t", 6, 1⟩ (.call ⟨"t", 6, 1⟩ (.path ⟨"t", 6, 1⟩ ["response", "write"])
        [.path ⟨"t", 6, 16⟩ ["a"]])]⟩⟩,
    .expr ⟨"t", 8, 1⟩ (.call ⟨"t", 8, 1⟩ (.path ⟨"t", 8, 1⟩ ["f"])
      [.path ⟨"t", 8, 3⟩ ["x"], .call ⟨"t", 8, 6⟩ (.path ⟨"t", 8, 6⟩ ["g"]) []])]⟩

/-- the location of the variable that is passed -/
def passed (l : Location) : Bool := l = ⟨"t", 8, 3⟩

theorem run_copying_passScript :
    let s := (start .default true).registerResponse
    let b := passScript "y"
    s.Steady passed b ∧ b.copying passed ≠ b ∧
      (s.perform 0 (runBlock s.globals (b.copying passed))).2.2.output = #[.integer 1] := by
  intro s b
  have hs : s.Prepared := (Under.start _ _).registerResponse trivial
  have hsteady : s.Steady passed b := by decide +kernel
  have hsame := run_copying hs (by decide) passed hsteady
  have houtput : (s.perform 0 (runBlock s.globals b)).2.2.output = #[.integer 1] := by
    decide +kernel
  exact ⟨hsteady, by decide +kernel, hsame.output.symm.trans houtput⟩

/-- where the function assigns to the variable itself, a copy that was made before holds the old
value, and one that is made afterwards the new one -/
theorem passScript_assigned :
    let s := (start .default true).registerResponse
    let b := passScript "x"
    (s.perform 0 (runBlock s.globals b)).1 = .ok () ∧
      (s.perform 0 (runBlock s.globals b)).2.2.output = #[.integer 2] ∧
      (s.perform 0 (runBlock s.globals (b.copying passed))).1 = .ok () ∧
      (s.perform 0 (runBlock s.globals (b.copying passed))).2.2.output = #[.integer 1] := by
  decide +kernel

/-- a call whose result is called -/
def resultScript : Block :=
  ⟨⟨"t", 1, 1⟩,
    [.function ⟨⟨"t", 1, 1⟩, .sub, "f", [⟨⟨"t", 1, 13⟩, "a", some false⟩], ⟨⟨"t", 2, 1⟩, []⟩⟩,
    .assign ⟨"t", 8, 1⟩ (.path ⟨"t", 8, 1⟩ ["y"])
      (.call ⟨"t", 8, 2⟩ (.call ⟨"t", 8, 2⟩ (.path ⟨"t", 8, 2⟩ ["f"]) [.path ⟨"t", 8, 3⟩ ["x"]])
        [])]⟩

/-- an error quotes what is called, with the parentheses -/
example :
    let s := (start .default true).registerResponse
    s.Steady passed resultScript ∧
      (s.perform 0 (runBlock s.globals resultScript)).1
        = .error ⟨⟨"t", 8, 2⟩, .notCallable "f(x)"⟩ ∧
      (s.perform 0 (runBlock s.globals (resultScript.copying passed))).1
        = .error ⟨⟨"t", 8, 2⟩, .notCallable "f((x))"⟩ := by
  decide +kernel

end Session

end PageScript
