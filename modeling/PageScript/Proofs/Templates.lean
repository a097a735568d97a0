import PageScript.Proofs.Eval.Writing
import PageScript.Proofs.Parser.Template

/-!
# Templates show what they insert

Reading a template gives one statement for every text that is not empty and for every expression.
Running these writes the texts and the values in order.  An expression without a value ends the run,
and what stands in front of it has been written.

Main statement: `Template.fidelity`.
-/

namespace PageScript

open Eval

/-! ## values -/

/-- a list of expressions has these values -/
abbrev Constant.Values : List Constant → List Value → Prop :=
  List.Forall₂ fun k v => k.value = .ok v

namespace Constant.Values

theorem exists_of_forall {ks : List Constant} (h : ∀ k ∈ ks, ∃ v, k.value = .ok v) :
    ∃ vs, Values ks vs := by
  induction ks with
  | nil => exact ⟨[], .nil⟩
  | cons k ks ih =>
    obtain ⟨⟨v, hv⟩, hks⟩ := List.forall_mem_cons.mp h
    obtain ⟨vs, hvs⟩ := ih hks
    exact ⟨v :: vs, .cons hv hvs⟩

/-- a page shows the values as the expressions tell -/
theorem map_text {ks : List Constant} {vs : List Value} (h : Values ks vs) (s : Store) :
    vs.map s.text = ks.map Constant.shown := by
  induction h with
  | nil => rfl
  | cons hv _ ih => rw [List.map_cons, List.map_cons, ih, Constant.text_of_value hv]

end Constant.Values

/-- a text is a literal, so what is written has values as soon as the inserts have -/
theorem Template.exists_values (head : String) {inserts : List (Constant × String)}
    (h : ∀ p ∈ inserts, ∃ v, p.1.value = .ok v) :
    ∃ vs, Constant.Values (constants head inserts) vs := by
  have htext : ∀ text, ∀ k ∈ textConstants text, ∃ v, k.value = .ok v := by
    intro text k hk
    unfold textConstants at hk
    split at hk
    · cases hk
    · obtain rfl := List.mem_singleton.mp hk
      exact ⟨.string text, rfl⟩
  refine Constant.Values.exists_of_forall fun k hk => ?_
  rcases List.mem_append.mp hk with hk | hk
  · exact htext head k hk
  · obtain ⟨p, hp, hk⟩ := List.mem_flatMap.mp hk
    rcases List.mem_cons.mp hk with rfl | hk
    · exact h p hp
    · exact htext p.2 k hk

/-! ## runs -/

namespace Session

section

variable {s : Session} {f : FunctionId}

/-- a run of statements that write, as an evaluation -/
theorem run_eq_of_writing {ks : List Constant} {loc : Location} {ss : List Stmt}
    (hss : Stmt.bares ss = ks.map Template.writing) {r : Except RuntimeError Flow} {m : Machine}
    (hm : (executeAll (invoke s.config.maxCallDepth) s.globals ss).outcome s.env
      ⟨s.store, 0, s.output⟩ = (r, m)) :
    s.run ⟨loc, ss⟩ = (r.map fun _ => (), { s with store := m.store, output := m.output }) := by
  have hhoist : (modifyStore (Block.hoist s.globals · ⟨loc, ss⟩)).outcome s.env
      ⟨s.store, 0, s.output⟩ = (.ok (), ⟨s.store, 0, s.output⟩) := by
    show (Except.ok (), (⟨Stmt.hoistAll s.globals s.store ss, 0, s.output⟩ : Machine)) = _
    rw [hoistAll_writing hss]
  have hrun : (runBlock s.globals ⟨loc, ss⟩).outcome s.env ⟨s.store, 0, s.output⟩
      = (r.map fun _ => (), m) := by
    rw [outcome_runBlock]
    refine (outcome_bind_of_ok hhoist _).trans ?_
    rw [execute]
    cases r with
    | error err => exact outcome_bind_of_error hm _
    | ok flow => exact outcome_bind_of_ok hm _
  show (let o := (runBlock s.globals ⟨loc, ss⟩).outcome s.env ⟨s.store, 0, s.output⟩
    (o.1, { s with store := o.2.store, output := o.2.output })) = _
  rw [hrun]

variable (hserves : s.store.Serves s.globals f) (hsteps : s.config.maxSteps = none)
include hserves hsteps

/-- a run writes the values of all expressions, if they have values -/
theorem run_of_values {ks : List Constant} {vs : List Value} (hvs : Constant.Values ks vs)
    {loc : Location} {ss : List Stmt} (hss : Stmt.bares ss = ks.map Template.writing) :
    (s.run ⟨loc, ss⟩).1 = .ok () ∧ (s.run ⟨loc, ss⟩).2.output.toList = s.output.toList ++ vs := by
  have hheld : Ref.scope s.globals ∈ s.env.held := List.mem_cons_self
  obtain ⟨m, -, houtput, hm⟩ := outcome_executeAll_ok (i := invoke s.config.maxCallDepth)
    (m := ⟨s.store, 0, s.output⟩) hsteps hheld hvs hss [] hserves
  rw [List.append_nil] at hm
  rw [run_eq_of_writing hss hm]
  exact ⟨rfl, houtput⟩

/-- a run ends at the first expression that has no value, and has written those in front of it -/
theorem run_of_fault {ks : List Constant} {vs : List Value} (hvs : Constant.Values ks vs)
    {k : Constant} {fault : RuntimeFault} (hfault : k.value = .error fault)
    {more : List Constant} {loc : Location} {ss : List Stmt}
    (hss : Stmt.bares ss = (ks ++ k :: more).map Template.writing) :
    (∃ l, (s.run ⟨loc, ss⟩).1 = .error ⟨l, fault⟩) ∧
      (s.run ⟨loc, ss⟩).2.output.toList = s.output.toList ++ vs := by
  have hsplit := hss
  rw [Stmt.bares_eq_map, List.map_append, List.map_cons] at hsplit
  obtain ⟨before, after, rfl, hbefore, hafter⟩ := List.map_eq_append_iff.mp hsplit
  obtain ⟨st, rest, rfl, hst, -⟩ := List.map_eq_cons_iff.mp hafter
  rw [← Stmt.bares_eq_map] at hbefore
  have hheld : Ref.scope s.globals ∈ s.env.held := List.mem_cons_self
  have hsteps : s.env.config.maxSteps = none := hsteps
  obtain ⟨m, hserves, houtput, hm⟩ := outcome_executeAll_ok (i := invoke s.config.maxCallDepth)
    (m := ⟨s.store, 0, s.output⟩) hsteps hheld hvs hbefore (st :: rest) hserves
  obtain ⟨l, hend⟩ := outcome_executeAll_error (i := invoke s.config.maxCallDepth)
    hsteps hfault hst rest hserves
  rw [run_eq_of_writing hss (hm.trans hend)]
  exact ⟨⟨l, rfl⟩, houtput⟩

end

/-! ## the page -/

/-- in a fresh session scripts find the page's `response` -/
theorem serves_start :
    let s := (start .default true).registerResponse
    s.store.Serves s.globals ⟨0⟩ :=
  ⟨⟨⟨2⟩, ⟨0⟩, ⟨1⟩, by decide, by decide, by decide, by decide⟩, by rfl⟩

theorem eval_constant (s : Session) (k : Constant) :
    (s.eval k.expr).1.mapError RuntimeError.fault = k.value := by
  obtain ⟨r, hr, hvalue⟩ := k.outcome_eval (invoke s.config.maxCallDepth) s.globals k.bare_expr
    s.env ⟨s.store, 0, s.output⟩
  have heval : (s.eval k.expr).1
      = ((runExpr s.globals k.expr).outcome s.env ⟨s.store, 0, s.output⟩).1 := rfl
  rw [heval, outcome_runExpr]
  exact (congrArg (fun o => o.1.mapError RuntimeError.fault) hr).trans hvalue

/-- the page shows what has been written, piece by piece -/
theorem outputText_of_values {s : Session} {head : String} {inserts : List (Constant × String)}
    (h : Constant.Values (Template.constants head inserts) s.output.toList) :
    s.outputText = head ++ String.join (inserts.map fun p => p.1.shown ++ p.2) := by
  rw [outputText, h.map_text, Template.join_shown]

end Session

namespace Template

/-- **A template shows its texts and, between them, the values of what it inserts.**

It is read as the statements that write its pieces.  Run in a fresh session with a page that
records, it writes the texts that are not empty and the values of the expressions, in order.  If an
expression has no value, the run ends with the fault of its operator, and exactly what stands in
front of the expression has been written. -/
theorem fidelity {t : Template} (h : t.Writable) (name : String) :
    let s := (Session.start .default true).registerResponse
    (∀ p ∈ t.inserts, (s.eval p.1.expr).1.mapError RuntimeError.fault = p.1.value) ∧
    ∃ b, Block.ofText name .template t.source = .ok b ∧ b.bare = ⟨default, t.statements⟩ ∧
      ((∀ p ∈ t.inserts, ∃ v, p.1.value = .ok v) →
        (s.run b).1 = .ok () ∧
        Constant.Values (constants t.head t.inserts) (s.run b).2.output.toList ∧
        (s.run b).2.outputText
          = t.head ++ String.join (t.inserts.map fun p => p.1.shown ++ p.2)) ∧
      ∀ before e text after fault, t.inserts = before ++ (e, text) :: after →
        (∀ p ∈ before, ∃ v, p.1.value = .ok v) → e.value = .error fault →
        fault.isOperator = true ∧ (∃ l, (s.run b).1 = .error ⟨l, fault⟩) ∧
        Constant.Values (constants t.head before) (s.run b).2.output.toList ∧
        (s.run b).2.outputText
          = t.head ++ String.join (before.map fun p => p.1.shown ++ p.2) := by
  intro s
  obtain ⟨⟨loc, ss⟩, hread, hbare⟩ := exists_ofText h name
  have hss : Stmt.bares ss = (constants t.head t.inserts).map writing := (Block.mk.inj hbare).2
  refine ⟨fun p _ => s.eval_constant p.1, ⟨loc, ss⟩, hread, hbare, fun hvalues => ?_, ?_⟩
  · obtain ⟨vs, hvs⟩ := exists_values t.head hvalues
    obtain ⟨hended, houtput⟩ := Session.run_of_values Session.serves_start rfl hvs hss
    have hwritten : (s.run ⟨loc, ss⟩).2.output.toList = vs := houtput
    rw [← hwritten] at hvs
    exact ⟨hended, hvs, Session.outputText_of_values hvs⟩
  · intro before e text after fault hsplit hvalues hfault
    obtain ⟨vs, hvs⟩ := exists_values t.head hvalues
    rw [hsplit, constants_append] at hss
    obtain ⟨hended, houtput⟩ := Session.run_of_fault Session.serves_start rfl hvs hfault hss
    have hwritten : (s.run ⟨loc, ss⟩).2.output.toList = vs := houtput
    rw [← hwritten] at hvs
    exact ⟨Value.isOperator_of_computed e.computed_value hfault, hended, hvs,
      Session.outputText_of_values hvs⟩

/-- the template `a <<%= "x%>y" %><%= (1 + 2) * 3 %>%>↵<<%= 6 / d %>end`, with a divisor for `d` -/
def ratioPage (d : Int64) : Template :=
  ⟨"a <", [(.literal (.string "x%>y"), ""),
    (.binary .mul (.paren (.binary .add (.literal (.integer 1)) (.literal (.integer 2))))
      (.literal (.integer 3)), "%>\n<"),
    (.binary .div (.literal (.integer 6)) (.literal (.integer d)), "end")]⟩

/-- the page is shown to its end, or up to the division by zero -/
theorem fidelity_ratioPage :
    let s := (Session.start .default true).registerResponse
    (∃ b, Block.ofText "page" .template (ratioPage 2).source = .ok b ∧ (s.run b).1 = .ok () ∧
      (s.run b).2.outputText = "a <x%>y9%>\n<3end") ∧
    ∃ b l, Block.ofText "page" .template (ratioPage 0).source = .ok b ∧
      (s.run b).1 = .error ⟨l, .divisionByZero⟩ ∧
      (s.run b).2.outputText = "a <x%>y9%>\n<" := by
  have hshown : (ratioPage 2).Writable :=
    ⟨by decide, by decide, by decide, by decide, by decide⟩
  have hfailing : (ratioPage 0).Writable :=
    ⟨by decide, by decide, by decide, by decide, by decide⟩
  obtain ⟨-, b, hread, -, hruns, -⟩ := fidelity hshown "page"
  obtain ⟨-, b', hread', -, -, hfails⟩ := fidelity hfailing "page"
  have hvalues : ∀ p ∈ (ratioPage 2).inserts, ∃ v, p.1.value = .ok v :=
    List.forall_mem_cons.mpr ⟨⟨_, rfl⟩, List.forall_mem_cons.mpr ⟨⟨_, rfl⟩,
      List.forall_mem_singleton.mpr ⟨_, rfl⟩⟩⟩
  have hfirst : ∀ p ∈ (ratioPage 0).inserts.take 2, ∃ v, p.1.value = .ok v :=
    List.forall_mem_cons.mpr ⟨⟨_, rfl⟩, List.forall_mem_singleton.mpr ⟨_, rfl⟩⟩
  obtain ⟨hended, -, htext⟩ := hruns hvalues
  obtain ⟨-, ⟨l, hended'⟩, -, htext'⟩ := hfails _ _ _ [] _ rfl hfirst rfl
  exact ⟨⟨b, hread, hended, htext.trans (by decide)⟩,
    ⟨b', l, hread', hended', htext'.trans (by decide)⟩⟩

end Template

end PageScript
