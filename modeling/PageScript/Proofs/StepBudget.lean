import PageScript.Proofs.Eval.Watched

/-!
# The budget of statements

A run with a budget of `n` statements is the run without a budget, cut off where the statement
after the `n`-th one starts.  So up to the cut both runs are in one state, and behind it only the
run without a budget goes on; whatever it still does, it takes back nothing that was written, and
the statement where the other run stopped keeps its place in the log.

* `Watch.Cut`            the outcome with a budget beside the outcome without;
* `Watch.cutting`        what single steps and statements do to it;
* `Eval.runBlock_cut`    the exact effect of a budget on a run.
-/

namespace PageScript

open Eval Runner

def Env.withMaxSteps (env : Env) (budget : Option Nat) : Env :=
  { env with config.maxSteps := budget }

def Vantage.withMaxSteps (v : Vantage) (budget : Option Nat) : Vantage :=
  { v with env := v.env.withMaxSteps budget }

namespace Watch

variable {α β : Type} {n : Nat} {V : α → α → Prop} {U : β → β → Prop}

/-! ## the cut -/

/-- the outcome with a budget of `n` statements beside the outcome without a budget: the same one
within the budget, or cut off at the statement behind it -/
inductive Cut (n : Nat) (V : α → α → Prop) :
    Except Halt α × Watched → Except Halt α × Watched → Prop
  | ok {a b w} : w.log.length = w.machine.steps → w.machine.steps ≤ n → V a b →
    Cut n V (.ok a, w) (.ok b, w)
  | halt {h w} : w.machine.steps ≤ n → Cut n V (.error h, w) (.error h, w)
  | cut {w result w' moment} : w.machine.steps = n + 1 → w'.log[n]? = some moment →
    w.machine.output.toList <+: w'.machine.output.toList →
    Cut n V (.error (.error ⟨moment.location, .stepLimitExceeded n⟩), w) (result, w')

/-- the run without a budget may go on behind the cut -/
theorem Cut.follows {calls : List FunctionDecl} {limit : Nat} {w w₁ w₂ : Watched} {h : Halt}
    {b : α} {result : Except Halt β} (hcut : Cut n V (.error h, w) (.ok b, w₁))
    (hnext : w₁.Follows calls limit w₂) : Cut n U (.error h, w) (result, w₂) := by
  cases hcut with
  | cut hsteps hmoment houtput =>
    obtain ⟨l, hl, -, -⟩ := hnext.log
    have hlt := (List.getElem?_eq_some_iff.mp hmoment).1
    refine .cut hsteps ?_ (houtput.trans hnext.output)
    rw [hl, List.getElem?_append_left hlt, hmoment]

theorem Cut.bind {x y : Watch α} {f g : α → Watch β} {v v' : Vantage} {w : Watched}
    (hxy : Cut n V (x.outcome v w) (y.outcome v' w))
    (hfg : ∀ a b w₁, V a b → w₁.log.length = w₁.machine.steps → w₁.machine.steps ≤ n →
      Cut n U ((f a).outcome v w₁) ((g b).outcome v' w₁))
    (hg : ∀ b w₁, y.outcome v' w = (.ok b, w₁) → (g b).Keeps v' w₁) :
    Cut n U ((x >>= f).outcome v w) ((y >>= g).outcome v' w) := by
  rw [outcome_bind, outcome_bind]
  rcases hx : x.outcome v w with ⟨h | a, w₁⟩ <;> rcases hy : y.outcome v' w with ⟨h' | b, w₂⟩ <;>
    rw [hx, hy] at hxy
  · cases hxy with
    | halt hsteps => exact .halt hsteps
    | cut hsteps hmoment houtput => exact .cut hsteps hmoment houtput
  · -- only the run without a budget has come through `x`: it goes on alone
    exact hxy.follows (hg b w₂ hy)
  · cases hxy
  · cases hxy with
    | ok hlog hsteps hab => exact hfg a b w₁ hab hlog hsteps

/-! ## steps and statements -/

theorem cut_step {p : Eval α} (hp : p.Plain)
    (hV : ∀ env m a, (p.outcome env m).1 = .ok a → V a a) (v : Vantage) {w : Watched}
    (hlog : w.log.length = w.machine.steps) (hsteps : w.machine.steps ≤ n) :
    Cut n V ((step p : Watch α).outcome (v.withMaxSteps (some n)) w)
      ((step p : Watch α).outcome (v.withMaxSteps none) w) := by
  have hbudgets : (v.withMaxSteps (some n)).env.SameButBudgets (v.withMaxSteps none).env :=
    ⟨rfl, rfl, rfl, rfl⟩
  rw [outcome_step, outcome_step, hp.outcome_eq hbudgets w.machine]
  have hkept := hp.steps_eq (v.withMaxSteps none).env w.machine
  have hresult := hV (v.withMaxSteps none).env w.machine
  generalize p.outcome (v.withMaxSteps none).env w.machine = o at hkept hresult ⊢
  rcases o with ⟨e | a, m⟩
  · exact .halt (hkept.trans_le hsteps)
  · exact .ok (hlog.trans hkept.symm) (hkept.trans_le hsteps) (hresult a rfl)

/-- the statement behind the last one of the budget is where the run is cut off -/
theorem cut_start (c : ScopeId) (loc : Location) (v : Vantage) {w : Watched}
    (hlog : w.log.length = w.machine.steps) (hsteps : w.machine.steps ≤ n) :
    Cut n Eq ((start c loc : Watch Unit).outcome (v.withMaxSteps (some n)) w)
      ((start c loc : Watch Unit).outcome (v.withMaxSteps none) w) := by
  rw [outcome_start, outcome_start]
  show Cut n Eq ((if n < w.machine.steps + 1 then .error ⟨loc, .stepLimitExceeded n⟩ else
    .ok () : Except RuntimeError Unit).mapError Halt.error, _) (.ok (), _)
  split
  · -- the statements before this one fill the budget, so its entry in the log is the `n`-th
    let moment : Moment := ⟨loc, v.calls, w.depth⟩
    have hlast : w.log.length = n := by omega
    have hmoment : (w.log ++ [moment])[n]? = some moment := by
      rw [← hlast, List.getElem?_concat_length]
    have hsteps₁ : w.machine.steps + 1 = n + 1 := by omega
    exact @Cut.cut _ n Eq { w with machine.steps := _, log := _ } _ _ moment hsteps₁ hmoment
      List.prefix_rfl
  · refine .ok ?_ ?_ rfl
    · show (w.log ++ [_]).length = w.machine.steps + 1
      rw [List.length_append, hlog]
      rfl
    · show w.machine.steps + 1 ≤ n
      omega

theorem cut_inside {x y : Watch α} {v v' : Vantage} {w : Watched} (decl : FunctionDecl)
    (hxy : Cut n V (x.outcome { v with calls := decl :: v.calls } { w with depth := w.depth + 1 })
      (y.outcome { v' with calls := decl :: v'.calls } { w with depth := w.depth + 1 })) :
    Cut n V ((inside decl x).outcome v w) ((inside decl y).outcome v' w) := by
  rw [outcome_inside, outcome_inside]
  generalize x.outcome _ _ = o at hxy ⊢
  generalize y.outcome _ _ = o' at hxy ⊢
  cases hxy with
  | ok hlog hsteps hab => exact .ok hlog hsteps hab
  | halt hsteps => exact .halt hsteps
  | cut hsteps hmoment houtput => exact .cut hsteps hmoment houtput

/-- evaluations with a budget of `n` statements beside evaluations without one; the ones without
are known to keep what a watched run keeps -/
def cutting (n : Nat) : Lockstep Watch Watch where
  rel V x y := keeping.rel V x y ∧ ∀ (v : Vantage) (w : Watched),
    w.log.length = w.machine.steps → w.machine.steps ≤ n →
      Cut n V (x.outcome (v.withMaxSteps (some n)) w) (y.outcome (v.withMaxSteps none) w)
  pure h := ⟨keeping.pure h, fun _ _ hlog hsteps => .ok hlog hsteps h⟩
  bind hx hf := by
    refine ⟨keeping.bind hx.1 fun a b hab => (hf a b hab).1, fun v w hlog hsteps => ?_⟩
    refine Cut.bind (hx.2 v w hlog hsteps) (fun a b w₁ hab hlog₁ hsteps₁ => ?_) fun b w₁ hb => ?_
    · exact (hf a b hab).2 v w₁ hlog₁ hsteps₁
    · obtain ⟨a, hab⟩ := (hx.1 (v.withMaxSteps none) w).2 b (by rw [hb])
      exact ((hf a b hab).1 (v.withMaxSteps none) w₁).1
  holding refs hx :=
    ⟨keeping.holding refs hx.1, fun v w => hx.2 { v with env.held := refs ++ v.env.held } w⟩
  start c l := ⟨keeping.start c l, fun v _ => cut_start c l v⟩
  step hp hV := ⟨keeping.step hp hV, fun v _ => cut_step hp hV v⟩

/-! ## runs -/

theorem cutting_invoke (n fuel : Nat) :
    (cutting n).simulation.Invokes (invoke fuel) (invoke fuel) := by
  induction fuel with
  | zero =>
    intro _ _ _ _ _ _ args hd hhome hl
    exact ⟨keeping_invoke 0 (w := ()) args hd hhome hl, fun _ _ _ hsteps => .halt hsteps⟩
  | succ fuel ih =>
    intro _ d d' home l l' args hd hhome hl
    refine ⟨keeping_invoke (fuel + 1) (w := ()) args hd hhome hl, fun v w hlog hsteps => ?_⟩
    obtain rfl := hd.eq
    obtain rfl : l = l' := hl
    rw [outcome_invoke, outcome_invoke]
    by_cases hlimit : w.depth < v.env.config.maxCallDepth
    · have hfree (b) : w.depth < (v.withMaxSteps b).env.config.maxCallDepth := hlimit
      rw [if_pos (hfree _), if_pos (hfree _)]
      -- the cut can only be in the body; behind it the activation still has its result read
      refine Cut.bind (V := Eq) (cut_step (.enter d home args) (fun _ _ _ _ => rfl) v hlog hsteps)
        ?_ ?_
      · rintro scope _ w₁ rfl hlog₁ hsteps₁
        refine Cut.bind (V := Eq) (cut_inside d ?_) ?_ ?_
        · exact ((cutting n).simulation.holding (w := ()) _
            ((cutting n).simulation.execute ih trivial d.body.alike_self)).2
              { v with calls := d :: v.calls } _ hlog₁ hsteps₁
        · rintro _ _ w₂ - hlog₂ hsteps₂
          exact cut_step (.resultSlot scope) (fun _ _ _ _ => rfl) v hlog₂ hsteps₂
        · intro _ w₂ _
          exact keeps_step (.resultSlot scope)
      · intro scope w₁ h₁
        have hdepth : w₁.depth = w.depth := congrArg (fun o => o.2.depth) h₁.symm
        exact keeps_runBody (keeping_invoke fuel) d home scope (hdepth ▸ hlimit)
    · have hfull (b) : ¬ w.depth < (v.withMaxSteps b).env.config.maxCallDepth := hlimit
      rw [if_neg (hfull _), if_neg (hfull _)]
      exact .halt hsteps

/-- the statements that the run of a block starts, in order -/
def started (scope : ScopeId) (block : Block) (env : Env) (m : Machine) : List Moment :=
  (run (env.config.maxCallDepth + 1) scope block env m).2.log

theorem cut_run (n fuel : Nat) (scope : ScopeId) (block : Block) (env : Env) (store : Store)
    (output : Array Value) :
    Cut n Eq (run fuel scope block (env.withMaxSteps (some n)) ⟨store, 0, output⟩)
      (run fuel scope block (env.withMaxSteps none) ⟨store, 0, output⟩) :=
  ((cutting n).simulation.runWith (w := ()) (cutting_invoke n fuel) trivial block.alike_self).2
    ⟨env, []⟩ ⟨⟨store, 0, output⟩, 0, []⟩ rfl (Nat.zero_le n)

/-- what the cut says of the ordinary outcomes, where the log has an entry for every statement -/
theorem Cut.erased {o o' : Except Halt α × Watched}
    {limited unlimited : Except RuntimeError α × Machine}
    (hcut : Cut n Eq o o')
    (hlimited : o.1 = limited.1.mapError .error ∧ o.2.machine = limited.2)
    (hunlimited : o'.1 = unlimited.1.mapError .error ∧ o'.2.machine = unlimited.2)
    (hlog : o'.2.log.length = o'.2.machine.steps) :
    o'.2.log.length = unlimited.2.steps ∧
    (o'.2.log.length ≤ n → limited = unlimited) ∧
    (n < o'.2.log.length → ∃ moment, o'.2.log[n]? = some moment ∧
      limited.1 = .error ⟨moment.location, .stepLimitExceeded n⟩ ∧
      limited.2.steps = n + 1 ∧
      limited.2.output.toList <+: unlimited.2.output.toList) := by
  obtain ⟨result, m⟩ := limited
  obtain ⟨result', m'⟩ := unlimited
  obtain ⟨hresult, rfl⟩ := hlimited
  obtain ⟨hresult', rfl⟩ := hunlimited
  refine ⟨hlog, fun hle => ?_, fun hlt => ?_⟩
  · have hsame : o = o' := by
      cases hcut with
      | ok _ _ hab => rw [hab]
      | halt => rfl
      | cut _ hmoment =>
        have hlt := (List.getElem?_eq_some_iff.mp hmoment).1
        exact absurd hlt hle.not_gt
    subst hsame
    exact Prod.ext (mapError_inj (hresult.symm.trans hresult')) rfl
  · cases hcut with
    | ok _ hsteps => exact absurd (hlog ▸ hlt) hsteps.not_gt
    | halt hsteps => exact absurd (hlog ▸ hlt) hsteps.not_gt
    | @cut w _ w' moment hsteps hmoment houtput =>
      exact ⟨moment, hmoment, mapError_inj hresult.symm, hsteps, houtput⟩

end Watch

/-- a run with a budget of `n` statements and the run without a budget, both from a count of zero:
if the second one starts at most `n` statements, they are the same; otherwise the first one fails
where the next statement starts, and what it wrote is where the second one's output begins -/
theorem Eval.runBlock_cut (scope : ScopeId) (block : Block) (env : Env) (store : Store)
    (output : Array Value) (n : Nat) :
    let limited := (runBlock scope block).outcome (env.withMaxSteps (some n)) ⟨store, 0, output⟩
    let unlimited := (runBlock scope block).outcome (env.withMaxSteps none) ⟨store, 0, output⟩
    let started := Watch.started scope block (env.withMaxSteps none) ⟨store, 0, output⟩
    started.length = unlimited.2.steps ∧
    (started.length ≤ n → limited = unlimited) ∧
    (n < started.length → ∃ moment, started[n]? = some moment ∧
      limited.1 = .error ⟨moment.location, .stepLimitExceeded n⟩ ∧
      limited.2.steps = n + 1 ∧
      limited.2.output.toList <+: unlimited.2.output.toList) := by
  have hfuel := Nat.lt_add_one env.config.maxCallDepth
  exact (Watch.cut_run n _ scope block env store output).erased
    (Watch.run_eq (env.withMaxSteps (some n)) hfuel scope block _)
    (Watch.run_eq (env.withMaxSteps none) hfuel scope block _)
    (Watch.length_log_run _ scope block _ store output)

end PageScript
