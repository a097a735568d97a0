import PageScript.Parser.Statement
import PageScript.Proofs.Parser.Alike

/-!
# Blocks on streams that are alike

Statements, declarations and blocks are read alike from streams that are alike.  Whether a word
starts, divides or ends a block is asked of its folded spelling, so keywords in any letter case
lead to the same tree.

* `alike_afterPath`        statements that start with a path;
* `alike_function`, `alike_classDecl`, `alike_condition`   statements that hold blocks, given that
                           blocks further in are read alike;
* `alike_wordStatements`   the statements that a word starts;
* `alike_block`            blocks within a nesting budget, by induction over the budget.
-/

namespace PageScript.Parser

variable {L : Location → Location → Prop}

/-! ## statements that call -/

section calls

variable {loc loc' : Location} (hloc : L loc loc')

include hloc

theorem callStatement_alike {callee callee' : Expr} (hcallee : callee.Alike (.spelled L) callee')
    {args args' : List Expr} (hargs : Expr.AllAlike (.spelled L) args args') :
    (callStatement loc callee args).Alike (.spelled L) (callStatement loc' callee' args') :=
  .expr hloc (.call hloc hcallee hargs)

theorem writeStatement_alike {value value' : Expr} (hvalue : value.Alike (.spelled L) value') :
    (writeStatement loc value).Alike (.spelled L) (writeStatement loc' value') := by
  have hpath : (Expr.path loc ["response", "write"]).Alike (.spelled L)
      (.path loc' ["response", "write"]) :=
    .path hloc (.cons rfl (.cons rfl .nil))
  exact callStatement_alike hloc hpath (.cons hvalue .nil)

theorem calledStatement_alike {e e' : Expr} (he : e.Alike (.spelled L) e') :
    (calledStatement loc e).Alike (.spelled L) (calledStatement loc' e') := by
  cases he with
  | call hl hf has => exact .expr hloc (.call hl hf has)
  | literal hl => exact callStatement_alike hloc (.literal hl) .nil
  | path hl hns => exact callStatement_alike hloc (.path hl hns) .nil
  | binary hl ha hb => exact callStatement_alike hloc (.binary hl ha hb) .nil
  | unary hl ha => exact callStatement_alike hloc (.unary hl ha) .nil
  | new hl hc => exact callStatement_alike hloc (.new hl hc) .nil
  | paren hl ha => exact callStatement_alike hloc (.paren hl ha) .nil

end calls

section paths

variable {inner inner' : Nested Parser} (hinner : inner.Alike L inner')

include hinner

theorem alike_explicitCall :
    Alike L (Stmt.Alike (.spelled L)) (explicitCall inner) (explicitCall inner') := by
  refine alike_next.bind fun _ _ _ => alike_peek.bind fun t t' ht => ?_
  exact hinner.expression.bind fun e e' he => alike_pure (calledStatement_alike ht.location he)

variable {loc loc' : Location} (hloc : L loc loc') {target target' : Expr}
  (htarget : target.Alike (.spelled L) target')

include hloc htarget

theorem alike_callFromFirst {first first' : Expr} (hfirst : first.Alike (.spelled L) first') :
    Alike L (Stmt.Alike (.spelled L)) (callFromFirst inner loc target first)
      (callFromFirst inner' loc' target' first') := by
  refine (alike_eatSymbol ',').bind fun _ _ hb => .ite hb ?_ ?_
  · refine (alike_arguments hinner).bind fun args args' hargs => alike_pure ?_
    exact callStatement_alike hloc htarget (.cons hfirst hargs)
  · exact alike_pure (callStatement_alike hloc htarget (.cons hfirst .nil))

theorem alike_callFromSeed {seed seed' : Expr} (hseed : seed.Alike (.spelled L) seed') :
    Alike L (Stmt.Alike (.spelled L)) (callFromSeed inner loc target seed)
      (callFromSeed inner' loc' target' seed') := by
  refine (alike_peekIsSymbol ',').bind fun _ _ hb => .ite hb ?_ ?_
  · exact alike_callFromFirst hinner hloc htarget hseed
  · refine (hinner.continued hseed).bind fun first first' hfirst => ?_
    exact alike_callFromFirst hinner hloc htarget hfirst

omit hinner in
theorem alike_closedCall {opening opening' : Location} (hopening : L opening opening')
    {args args' : List Expr} (hargs : Expr.AllAlike (.spelled L) args args') :
    Alike L (Stmt.Alike (.spelled L)) (closedCall loc opening target args)
      (closedCall loc' opening' target' args') := by
  cases hargs with
  | nil => exact alike_pure (callStatement_alike hloc htarget .nil)
  | cons harg hargs =>
    cases hargs with
    | nil =>
      exact alike_pure (callStatement_alike hloc htarget (.cons (.paren hopening harg) .nil))
    | cons _ _ => exact alike_fail ⟨rfl, hopening⟩

theorem alike_afterArguments {opening opening' : Location} (hopening : L opening opening')
    {args args' : List Expr} (hargs : Expr.AllAlike (.spelled L) args args') :
    Alike L (Stmt.Alike (.spelled L)) (afterArguments inner loc opening target args)
      (afterArguments inner' loc' opening' target' args') := by
  refine alike_peek.bind fun t t' ht => .ite (ht.isSymbol '=') ?_ (.ite ht.endsStatement ?_ ?_)
  · refine alike_next.bind fun _ _ _ => hinner.expression.bind fun value value' hvalue => ?_
    exact alike_pure (.assign ht.location (.call hloc htarget hargs) hvalue)
  · exact alike_closedCall hloc htarget hopening hargs
  · -- more behind the parentheses: they can only belong to the first argument
    have hfail : Alike L (Stmt.Alike (.spelled L))
        (if t.isSymbol ',' then fail ⟨opening, .parenthesizedSubCall⟩
          else fail (t.unexpected .endOfStatement))
        (if t'.isSymbol ',' then fail ⟨opening', .parenthesizedSubCall⟩
          else fail (t'.unexpected .endOfStatement)) :=
      .ite (ht.isSymbol ',') (alike_fail ⟨rfl, hopening⟩) (alike_fail (ht.unexpected _))
    cases hargs with
    | nil => exact hfail
    | cons harg hargs =>
      cases hargs with
      | nil => exact alike_callFromSeed hinner hloc htarget (.paren hopening harg)
      | cons _ _ => exact hfail

theorem alike_afterPath :
    Alike L (Stmt.Alike (.spelled L)) (afterPath inner loc target)
      (afterPath inner' loc' target') := by
  refine alike_peek.bind fun t t' ht => .ite (ht.isSymbol '=') ?_ (.ite (ht.isSymbol '(') ?_ ?_)
  · refine alike_next.bind fun _ _ _ => hinner.expression.bind fun value value' hvalue => ?_
    exact alike_pure (.assign ht.location htarget hvalue)
  · refine alike_next.bind fun _ _ _ => (alike_arguments hinner).bind fun args args' hargs => ?_
    refine (alike_expectSymbol ')').bind fun _ _ _ => ?_
    exact alike_afterArguments hinner hloc htarget ht.location hargs
  · refine (alike_arguments hinner).bind fun args args' hargs => ?_
    exact alike_pure (callStatement_alike hloc htarget hargs)

omit hloc htarget in
theorem alike_assignmentOrCall :
    Alike L (Stmt.Alike (.spelled L)) (assignmentOrCall inner) (assignmentOrCall inner') := by
  refine (alike_expectName .statement).bind fun n n' hn => ?_
  refine (alike_path hn.1 hn.2).bind fun target target' htarget => ?_
  exact alike_afterPath hinner hn.2 htarget

end paths

/-! ## declarations -/

theorem alike_anotherName :
    Alike L (Option.Rel (Dim.Alike (.spelled L))) anotherName anotherName := by
  refine (alike_eatSymbol ',').bind fun _ _ hb => .ite hb ?_ (alike_pure .none)
  exact (alike_expectName .variableName).bind fun n n' hn => alike_pure (.some ⟨hn.2, hn.1⟩)

theorem alike_names : Alike L (List.Forall₂ (Dim.Alike (.spelled L))) names names := by
  refine (alike_expectName .variableName).bind fun n n' hn => ?_
  exact alike_anotherName.collect.bind fun ds ds' hds => alike_pure (.cons ⟨hn.2, hn.1⟩ hds)

theorem alike_passing : Alike L Eq passing passing := by
  refine (alike_eatKeyword "byref").bind fun _ _ hb => .ite hb (alike_pure rfl) ?_
  exact (alike_eatKeyword "byval").bind fun _ _ hb => .ite hb (alike_pure rfl) (alike_pure rfl)

theorem alike_param : Alike L (Param.Alike (.spelled L)) param param := by
  refine alike_passing.bind fun byRef byRef' hbyRef => ?_
  exact (alike_expectName .parameterName).bind fun n n' hn => alike_pure ⟨hn.2, hn.1, hbyRef⟩

theorem alike_listedParam :
    Alike L (Option.Rel (Param.Alike (.spelled L))) listedParam listedParam := by
  refine (alike_peekIsSymbol ')').bind fun _ _ hb => .ite hb (alike_pure .none) ?_
  refine alike_param.bind fun p p' hp => (alike_peekIsSymbol ')').bind fun b b' hb' => ?_
  refine .ite (by rw [hb']) ?_ (alike_pure (.some hp))
  exact (alike_expectSymbol ',').bind fun _ _ _ => alike_pure (.some hp)

theorem alike_params : Alike L (List.Forall₂ (Param.Alike (.spelled L))) params params := by
  refine (alike_eatSymbol '(').bind fun _ _ hb => .ite hb ?_ (alike_pure .nil)
  refine alike_listedParam.collect.bind fun ps ps' hps => ?_
  exact (alike_expectSymbol ')').bind fun _ _ _ => alike_pure hps

inductive Member.Alike (L : Location → Location → Prop) : Member → Member → Prop
  | field {d d' : Dim} : d.Alike (.spelled L) d' → Alike L (.field d) (.field d')
  | method {d d' : FunctionDecl} : d.Alike (.spelled L) d' → Alike L (.method d) (.method d')

theorem Member.Alike.field? {m m' : Member} (h : m.Alike L m') :
    Option.Rel (Dim.Alike (.spelled L)) m.field? m'.field? := by
  cases h with
  | field hd => exact .some hd
  | method _ => exact .none

theorem Member.Alike.method? {m m' : Member} (h : m.Alike L m') :
    Option.Rel (FunctionDecl.Alike (.spelled L)) m.method? m'.method? := by
  cases h with
  | field _ => exact .none
  | method hd => exact .some hd

theorem alike_fields : Alike L (List.Forall₂ (Member.Alike L)) fields fields := by
  refine alike_names.bind fun ds ds' hds => alike_endOfStatement.bind fun _ _ _ => alike_pure ?_
  exact List.rel_map (fun _ _ => .field) hds

section bodies

variable {block block' : Parser Block} (hblock : Alike L (Block.Alike (.spelled L)) block block')

include hblock

theorem alike_function (kind : FunctionKind) :
    Alike L (FunctionDecl.Alike (.spelled L)) (function block kind) (function block' kind) := by
  refine alike_next.bind fun t t' ht => (alike_expectName .functionName).bind fun n n' hn => ?_
  refine alike_params.bind fun ps ps' hps => alike_endOfStatement.bind fun _ _ _ => ?_
  refine hblock.bind fun b b' hb => (alike_expectEnd kind.keyword).bind fun _ _ _ => ?_
  exact alike_endOfStatement.bind fun _ _ _ => alike_pure (.mk ht.location hn.1 hps hb)

theorem alike_members :
    Alike L (Option.Rel (List.Forall₂ (Member.Alike L))) (members block) (members block') := by
  refine alike_peek.bind fun t t' ht => .ite (ht.isSymbol ':') ?_ ?_
  · exact alike_next.bind fun _ _ _ => alike_pure (.some .nil)
  have hfields : Alike L (Option.Rel (List.Forall₂ (Member.Alike L)))
      (fields >>= fun ms => pure (some ms)) (fields >>= fun ms => pure (some ms)) :=
    alike_fields.bind fun _ _ hms => alike_pure (.some hms)
  refine .ite (ht.isKeyword "end") (alike_pure .none) (.ite (ht.isKeyword "dim") ?_ ?_)
  · exact alike_next.bind fun _ _ _ => hfields
  refine .ite (ht.isKeyword "function") ?_ (.ite (ht.isKeyword "sub") ?_ ?_)
  · refine (alike_function hblock .function).bind fun d d' hd => ?_
    exact alike_pure (.some (.cons (.method hd) .nil))
  · refine (alike_function hblock .sub).bind fun d d' hd => ?_
    exact alike_pure (.some (.cons (.method hd) .nil))
  refine .ite (by rw [ht.isKeyword "public", ht.isKeyword "private"]) ?_ ?_
  · refine alike_next.bind fun _ _ _ => (alike_peekIsKeyword "function").bind fun b b' hb => ?_
    refine (alike_peekIsKeyword "sub").bind fun c c' hc => ?_
    exact .ite (by rw [hb, hc]) (alike_pure (.some .nil)) hfields
  · exact alike_fail (ht.unexpected .classMember)

theorem alike_classDecl :
    Alike L (ClassDecl.Alike (.spelled L)) (classDecl block) (classDecl block') := by
  refine alike_next.bind fun t t' ht => (alike_expectName .className).bind fun n n' hn => ?_
  refine alike_endOfStatement.bind fun _ _ _ => ?_
  refine (alike_members hblock).collect.bind fun lists lists' hlists => ?_
  refine (alike_expectEnd "class").bind fun _ _ _ => alike_endOfStatement.bind fun _ _ _ => ?_
  have hms : List.Forall₂ (Member.Alike L) lists.flatten lists'.flatten := List.rel_flatten hlists
  have hfields := List.rel_filterMap (fun _ _ h => Member.Alike.field? h) hms
  have hmethods := List.rel_filterMap (fun _ _ h => Member.Alike.method? h) hms
  exact alike_pure (.mk ht.location hn.1 hfields (FunctionDecl.allAlike_of_forall₂ hmethods))

/-! ## conditions -/

def BranchAlike (L : Location → Location → Prop) (b b' : Expr × Block) : Prop :=
  b.1.Alike (.spelled L) b'.1 ∧ b.2.Alike (.spelled L) b'.2

theorem alike_lastBranch :
    Alike L (Block.Alike (.spelled L)) (lastBranch block) (lastBranch block') := by
  refine alike_peek.bind fun t t' ht => ?_
  refine .ite (ht.isKeyword "else") ?_ (.ite (ht.isKeyword "end") ?_ ?_)
  · refine alike_next.bind fun _ _ _ => hblock.bind fun b b' hb => ?_
    refine (alike_expectEnd "if").bind fun _ _ _ => ?_
    exact alike_endOfStatement.bind fun _ _ _ => alike_pure hb
  · refine (alike_expectEnd "if").bind fun _ _ _ => alike_endOfStatement.bind fun _ _ _ => ?_
    exact alike_pure (.mk ht.location .nil)
  · exact alike_fail (ht.unexpected .endIf)

omit hblock in
theorem chained_alike {chain chain' : List (Location × Expr × Block)}
    (h : List.Forall₂ (fun c c' => L c.1 c'.1 ∧ BranchAlike L c.2 c'.2) chain chain')
    {last last' : Block} (hlast : last.Alike (.spelled L) last') :
    (chained chain last).Alike (.spelled L) (chained chain' last') := by
  induction h with
  | nil => exact hlast
  | cons hc _ ih => exact .mk hc.1 (.cons (.cond hc.1 hc.2.1 hc.2.2 ih) .nil)

variable {inner inner' : Nested Parser} (hinner : inner.Alike L inner')

include hinner

theorem alike_branch : Alike L (BranchAlike L) (branch inner block) (branch inner' block') := by
  refine hinner.expression.bind fun e e' he => (alike_expectKeyword "then").bind fun _ _ _ => ?_
  exact hblock.bind fun b b' hb => alike_pure ⟨he, hb⟩

theorem alike_elseIf :
    Alike L (Option.Rel fun c c' => L c.1 c'.1 ∧ BranchAlike L c.2 c'.2) (elseIf inner block)
      (elseIf inner' block') := by
  refine alike_peek.bind fun t t' ht => .ite (ht.isKeyword "elseif") ?_ (alike_pure .none)
  refine alike_next.bind fun _ _ _ => (alike_branch hblock hinner).bind fun b b' hb => ?_
  exact alike_pure (.some ⟨ht.location, hb⟩)

theorem alike_condition {loc loc' : Location} (hloc : L loc loc') :
    Alike L (Stmt.Alike (.spelled L)) (condition inner block loc)
      (condition inner' block' loc') := by
  refine (alike_branch hblock hinner).bind fun b b' hb => ?_
  refine (alike_elseIf hblock hinner).collect.bind fun chain chain' hchain => ?_
  refine (alike_lastBranch hblock).bind fun last last' hlast => alike_pure ?_
  exact .cond hloc hb.1 hb.2 (chained_alike hchain hlast)

end bodies

/-! ## blocks -/

/-- what one round of reading a block gives, read alike -/
def RoundAlike (L : Location → Location → Prop) : Option (List Stmt) → Option (List Stmt) → Prop :=
  Option.Rel (List.Forall₂ (Stmt.Alike (.spelled L)))

theorem roundAlike_single {st st' : Stmt} (h : st.Alike (.spelled L) st') :
    RoundAlike L (some [st]) (some [st']) :=
  .some (.cons h .nil)

theorem alike_exitKind : Alike L Eq exitKind exitKind := by
  refine (alike_eatKeyword "function").bind fun _ _ hb => .ite hb (alike_pure rfl) ?_
  refine (alike_eatKeyword "sub").bind fun _ _ hb => .ite hb (alike_pure rfl) ?_
  exact alike_next.bind fun t t' ht => alike_fail (ht.unexpected .functionOrSub)

theorem alike_ended {statement statement' : Parser Stmt}
    (h : Alike L (Stmt.Alike (.spelled L)) statement statement') :
    Alike L (RoundAlike L) (ended statement) (ended statement') :=
  h.bind fun _ _ hst => alike_endOfStatement.bind fun _ _ _ => alike_pure (roundAlike_single hst)

section rounds

variable {inner inner' : Nested Parser} (hinner : inner.Alike L inner')

include hinner

theorem alike_chunkStatements {loc loc' : Location} (hloc : L loc loc') (text : String) :
    Alike L (List.Forall₂ (Stmt.Alike (.spelled L))) (chunkStatements inner loc text)
      (chunkStatements inner' loc' text) := by
  have hwritten : List.Forall₂ (Stmt.Alike (.spelled L))
      (if text.isEmpty then [] else [writeStatement loc (.literal loc (.string text))])
      (if text.isEmpty then [] else [writeStatement loc' (.literal loc' (.string text))]) := by
    split
    · exact .nil
    · exact .cons (writeStatement_alike hloc (.literal hloc)) .nil
  refine alike_next.bind fun _ _ _ => alike_peek.bind fun t t' ht => ?_
  refine .ite (ht.isSymbol '=') ?_ (alike_pure hwritten)
  refine alike_next.bind fun _ _ _ => hinner.expression.bind fun value value' hvalue => ?_
  refine alike_endOfStatement.bind fun _ _ _ => alike_pure ?_
  exact List.rel_append hwritten (.cons (writeStatement_alike ht.location hvalue) .nil)

variable {block block' : Parser Block} (hblock : Alike L (Block.Alike (.spelled L)) block block')

include hblock

theorem alike_wordStatements {t t' : Token} (ht : t.Alike L t') {w w' : String}
    (hw : Text.fold w = Text.fold w') :
    Alike L (RoundAlike L) (wordStatements inner block t w)
      (wordStatements inner' block' t' w') := by
  unfold wordStatements
  rw [hw]
  split
  · exact alike_pure .none
  · exact alike_pure .none
  · exact alike_pure .none
  · exact (alike_function hblock .function).bind fun d d' hd =>
      alike_pure (roundAlike_single (.function hd))
  · exact (alike_function hblock .sub).bind fun d d' hd =>
      alike_pure (roundAlike_single (.function hd))
  · exact (alike_classDecl hblock).bind fun d d' hd => alike_pure (roundAlike_single (.class hd))
  · refine alike_next.bind fun _ _ _ => alike_names.bind fun ds ds' hds => ?_
    refine alike_endOfStatement.bind fun _ _ _ => alike_pure (.some ?_)
    exact List.rel_map (fun _ _ => .dim) hds
  · refine alike_next.bind fun _ _ _ => ?_
    refine (alike_condition hblock hinner ht.location).bind fun st st' hst => ?_
    exact alike_pure (roundAlike_single hst)
  · exact alike_next.bind fun _ _ _ => alike_pure (.some .nil)
  · exact alike_ended (alike_explicitCall hinner)
  · refine alike_ended (alike_next.bind fun _ _ _ => ?_)
    refine (alike_expectKeyword "explicit").bind fun _ _ _ => ?_
    exact alike_pure (.optionExplicit ht.location)
  · refine alike_ended (alike_next.bind fun _ _ _ => alike_exitKind.bind fun kind kind' hkind => ?_)
    subst hkind
    exact alike_pure (.exit ht.location)
  · exact alike_ended (alike_assignmentOrCall hinner)

theorem alike_someStatements :
    Alike L (RoundAlike L) (someStatements inner block) (someStatements inner' block') := by
  refine alike_peek.bind fun t t' ht => ?_
  have hfail := alike_fail (V := RoundAlike L) (ht.unexpected .statement)
  cases ht using Token.Alike.byKind with
  | endOfInput _ => exact alike_pure .none
  | chunk text hloc =>
    exact (alike_chunkStatements hinner hloc text).bind fun ss ss' hss => alike_pure (.some hss)
  | word hw hloc => exact alike_wordStatements hinner hblock ⟨.word hw, hloc⟩ hw
  | symbol sign _ =>
    dsimp only
    split
    · contradiction
    · exact alike_next.bind fun _ _ _ => alike_pure (.some .nil)
    · contradiction
    · contradiction
    · exact hfail
  | integer => exact hfail
  | string => exact hfail

end rounds

/-- **Blocks within one nesting budget are read alike from streams that are alike.** -/
theorem alike_block (k : Nat) : Alike L (Block.Alike (.spelled L)) (block k) (block k) := by
  induction k with
  | zero => exact alike_here.bind fun _ _ hl => alike_fail (alike_tooDeep hl)
  | succ k ih =>
    refine alike_peek.bind fun t t' ht => ?_
    refine (alike_someStatements (alike_nested k) ih).collect.bind fun lists lists' hlists => ?_
    have hall := Stmt.allAlike_of_forall₂ (List.rel_flatten hlists)
    exact alike_pure (.mk ht.location hall)

end PageScript.Parser
