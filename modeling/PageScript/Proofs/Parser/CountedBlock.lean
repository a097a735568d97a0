import PageScript.Proofs.Parser.Counted
import PageScript.Program.OfText

/-!
# Counting the levels of blocks

The grammar of statements for counted parsers: every block opens a level, and so does every
expression in a statement.

* `counts_block`     where `k` more levels are allowed, `k + 1` calls in each other are enough;
* `program`, `wholeExpression`   whole texts;
* `fromStart_of_counts`   with no level open at first, none is open at the end.
-/

namespace PageScript

namespace Counted

open PageScript.Parser TokenStream

/-! ## statements -/

variable {k : Nat}

section statements

variable {inner : Nested Counted} {inner' : Nested Parser} (hinner : NestedCounts k inner inner')

include hinner

theorem counts_explicitCall : Counts k (explicitCall inner) (explicitCall inner') :=
  (Counts.lift next).bind fun _ => (Counts.lift peek).bind fun _ =>
    hinner.expression.bind fun _ => .pure _

theorem counts_callFromFirst (loc : Location) (target first : Expr) :
    Counts k (callFromFirst inner loc target first)
      (callFromFirst inner' loc target first) := by
  refine (Counts.lift (eatSymbol ',')).bind fun b => .ite ?_ (.pure _)
  exact (counts_arguments hinner).bind fun _ => .pure _

theorem counts_callFromSeed (loc : Location) (target seed : Expr) :
    Counts k (callFromSeed inner loc target seed) (callFromSeed inner' loc target seed) := by
  have hfirst := counts_callFromFirst hinner loc target
  refine (Counts.lift (peekIsSymbol ',')).bind fun b => .ite ?_ ?_
  · exact (Counts.pure seed).bind hfirst
  · exact (hinner.continued seed).bind hfirst

theorem counts_afterArguments (loc opening : Location) (target : Expr) (args : List Expr) :
    Counts k (afterArguments inner loc opening target args)
      (afterArguments inner' loc opening target args) := by
  refine (Counts.lift peek).bind fun t => .ite ?_ (.ite (.lift _) ?_)
  · exact (Counts.lift next).bind fun _ => hinner.expression.bind fun _ => .pure _
  · match args with
    | [] => exact .ite (.lift _) (.lift _)
    | [arg] => exact counts_callFromSeed hinner loc target _
    | _ :: _ :: _ => exact .ite (.lift _) (.lift _)

theorem counts_afterPath (loc : Location) (target : Expr) :
    Counts k (afterPath inner loc target) (afterPath inner' loc target) := by
  refine (Counts.lift peek).bind fun t => .ite ?_ (.ite ?_ ?_)
  · exact (Counts.lift next).bind fun _ => hinner.expression.bind fun _ => .pure _
  · refine (Counts.lift next).bind fun _ => (counts_arguments hinner).bind fun args => ?_
    exact (Counts.lift (expectSymbol ')')).bind fun _ =>
      counts_afterArguments hinner loc t.location target args
  · exact (counts_arguments hinner).bind fun _ => .pure _

theorem counts_assignmentOrCall :
    Counts k (assignmentOrCall inner) (assignmentOrCall inner') :=
  (Counts.lift (expectName .statement)).bind fun name =>
    (counts_path name.1 name.2).bind fun target => counts_afterPath hinner name.2 target

end statements

/-! ## declarations -/

theorem counts_names : Counts k names names :=
  (Counts.lift (expectName .variableName)).bind fun _ =>
    ((Counts.lift anotherName).repeated rounds_anotherName).bind fun _ => .pure _

theorem counts_params : Counts k params params := by
  refine (Counts.lift (eatSymbol '(')).bind fun b => .ite ?_ (.pure _)
  refine ((Counts.lift listedParam).repeated rounds_listedParam).bind fun ps => ?_
  exact (Counts.lift (expectSymbol ')')).bind fun _ => .pure _

theorem counts_fields : Counts k fields fields :=
  counts_names.bind fun _ => (Counts.lift endOfStatement).bind fun _ => .pure _

section blocks

variable {block : Counted Block} {block' : Parser Block} (hblock : Counts k block block')
  (hkeeps : Keeps block')

include hblock

theorem counts_function (kind : FunctionKind) :
    Counts k (function block kind) (function block' kind) := by
  refine (Counts.lift next).bind fun keyword => ?_
  refine (Counts.lift (expectName .functionName)).bind fun name => counts_params.bind fun ps => ?_
  refine (Counts.lift endOfStatement).bind fun _ => hblock.bind fun body => ?_
  refine (Counts.lift (expectEnd kind.keyword)).bind fun _ => ?_
  exact (Counts.lift endOfStatement).bind fun _ => .pure _

theorem counts_members : Counts k (members block) (members block') := by
  have hfields := (counts_fields (k := k)).bind fun ms => Counts.pure (some ms)
  refine (Counts.lift peek).bind fun t => .ite ?_ (.ite (.pure none) (.ite ?_ (.ite ?_ ?_)))
  · exact (Counts.lift next).bind fun _ => .pure _
  · exact (Counts.lift next).bind fun _ => hfields
  · exact (counts_function hblock .function).bind fun _ => .pure _
  refine .ite ?_ (.ite ?_ (.lift _))
  · exact (counts_function hblock .sub).bind fun _ => .pure _
  · refine (Counts.lift next).bind fun _ => ?_
    refine (Counts.lift (peekIsKeyword "function")).bind fun _ => ?_
    exact (Counts.lift (peekIsKeyword "sub")).bind fun _ => .ite (.pure _) hfields

theorem counts_lastBranch : Counts k (lastBranch block) (lastBranch block') := by
  refine (Counts.lift peek).bind fun t => .ite ?_ (.ite ?_ (.lift _))
  · refine (Counts.lift next).bind fun _ => hblock.bind fun b => ?_
    refine (Counts.lift (expectEnd "if")).bind fun _ => ?_
    exact (Counts.lift endOfStatement).bind fun _ => .pure _
  · refine (Counts.lift (expectEnd "if")).bind fun _ => ?_
    exact (Counts.lift endOfStatement).bind fun _ => .pure _

include hkeeps

theorem counts_classDecl : Counts k (classDecl block) (classDecl block') := by
  refine (Counts.lift next).bind fun keyword => ?_
  refine (Counts.lift (expectName .className)).bind fun name => ?_
  refine (Counts.lift endOfStatement).bind fun _ => ?_
  refine ((counts_members hblock).repeated (rounds_members hkeeps)).bind fun ms => ?_
  refine (Counts.lift (expectEnd "class")).bind fun _ => ?_
  exact (Counts.lift endOfStatement).bind fun _ => .pure _

/-! ## conditions -/

variable {inner : Nested Counted} {inner' : Nested Parser} (hinner : NestedCounts k inner inner')

include hinner

omit hkeeps in
theorem counts_branch : Counts k (branch inner block) (branch inner' block') :=
  hinner.expression.bind fun _ => (Counts.lift (expectKeyword "then")).bind fun _ =>
    hblock.bind fun _ => .pure _

omit hkeeps in
theorem counts_elseIf : Counts k (elseIf inner block) (elseIf inner' block') := by
  refine (Counts.lift peek).bind fun t => .ite ?_ (.pure none)
  exact (Counts.lift next).bind fun _ => (counts_branch hblock hinner).bind fun _ => .pure _

theorem counts_condition (loc : Location) :
    Counts k (condition inner block loc) (condition inner' block' loc) := by
  have hrounds := rounds_elseIf hkeeps hinner.advances
  refine (counts_branch hblock hinner).bind fun first => ?_
  refine ((counts_elseIf hblock hinner).repeated hrounds).bind fun chain => ?_
  exact (counts_lastBranch hblock).bind fun last => .pure _

/-! ## blocks -/

omit hblock hkeeps in
theorem counts_chunkStatements (loc : Location) (text : String) :
    Counts k (chunkStatements inner loc text) (chunkStatements inner' loc text) := by
  refine (Counts.lift next).bind fun _ => (Counts.lift peek).bind fun t => .ite ?_ (.pure _)
  refine (Counts.lift next).bind fun _ => hinner.expression.bind fun value => ?_
  exact (Counts.lift endOfStatement).bind fun _ => .pure _

omit hblock hkeeps hinner in
theorem counts_ended {statement : Counted Stmt} {statement' : Parser Stmt}
    (h : Counts k statement statement') : Counts k (ended statement) (ended statement') :=
  h.bind fun _ => (Counts.lift endOfStatement).bind fun _ => .pure _

theorem counts_wordStatements (token : Token) (word : String) :
    Counts k (wordStatements inner block token word)
      (wordStatements inner' block' token word) := by
  fun_cases wordStatements inner' block' token word with
  | case1 hword | case2 hword | case3 hword =>
    simp only [wordStatements, hword]
    exact .pure none
  | case4 hword =>
    simp only [wordStatements, hword]
    exact (counts_function hblock .function).bind fun _ => .pure _
  | case5 hword =>
    simp only [wordStatements, hword]
    exact (counts_function hblock .sub).bind fun _ => .pure _
  | case6 hword =>
    simp only [wordStatements, hword]
    exact (counts_classDecl hblock hkeeps).bind fun _ => .pure _
  | case7 hword =>
    simp only [wordStatements, hword]
    refine (Counts.lift next).bind fun _ => counts_names.bind fun ds => ?_
    exact (Counts.lift endOfStatement).bind fun _ => .pure _
  | case8 hword =>
    simp only [wordStatements, hword]
    refine (Counts.lift next).bind fun _ => ?_
    exact (counts_condition hblock hkeeps hinner token.location).bind fun _ => .pure _
  | case9 hword =>
    simp only [wordStatements, hword]
    exact (Counts.lift next).bind fun _ => .pure _
  | case10 hword =>
    simp only [wordStatements, hword]
    exact counts_ended (counts_explicitCall hinner)
  | case11 hword =>
    simp only [wordStatements, hword]
    refine counts_ended ((Counts.lift next).bind fun _ => ?_)
    exact (Counts.lift (expectKeyword "explicit")).bind fun _ => .pure _
  | case12 hword =>
    simp only [wordStatements, hword]
    refine counts_ended ((Counts.lift next).bind fun _ => ?_)
    exact (Counts.lift exitKind).bind fun _ => .pure _
  | case13 =>
    simp only [wordStatements]
    exact counts_ended (counts_assignmentOrCall hinner)

theorem counts_someStatements :
    Counts k (someStatements inner block) (someStatements inner' block') := by
  refine (Counts.lift peek).bind fun t => ?_
  obtain ⟨kind, loc⟩ := t
  cases kind with
  | endOfInput => exact .pure none
  | chunk text => exact (counts_chunkStatements hinner loc text).bind fun _ => .pure _
  | word w => exact counts_wordStatements hblock hkeeps hinner ⟨.word w, loc⟩ w
  | symbol sign =>
    by_cases hsign : sign = ':'
    · subst hsign
      exact (Counts.lift next).bind fun _ => .pure _
    · have hother : TokenKind.symbol sign ≠ .symbol ':' := by simpa using hsign
      simp only
      exact .lift _
  | _ => exact .lift _

end blocks

/-- where no level is left, a block is refused at its first token -/
theorem refuse_here {f : Token → List (List Stmt) → Block} (s : TokenStream) :
    (peek >>= fun t => fail (tooDeep t.location) >>= fun statements => pure (f t statements)) s
      = block 0 s := by
  obtain ⟨pending, finish⟩ := s
  match pending with
  | [] => rfl
  | .ok t :: _ => rfl
  | .error e :: _ => rfl

/-- **Blocks are counted.**  One call more than there are levels allowed is enough. -/
theorem counts_block (k : Nat) : Counts k (Reader.block (k + 1)) (block k) := by
  induction k with
  | zero =>
    let made (t : Token) (statements : List (List Stmt)) : Block := ⟨t.location, statements.flatten⟩
    have hrefused : Counts 0 (Reader.block 1) (peek >>= fun t =>
        fail (tooDeep t.location) >>= fun statements => pure (made t statements)) :=
      (Counts.lift peek).bind fun t =>
        ((Counts.lift (pure t.location)).bind fun l => .deepen_zero l _).bind fun _ => .pure _
    intro s count hk hhigh
    obtain ⟨highest, hle, hrun⟩ := hrefused s count hk hhigh
    rw [refuse_here] at hrun
    exact ⟨highest, hle, hrun⟩
  | succ k ih =>
    have hrounds := rounds_someStatements (keeps_block k) (advances_nested k)
    have hitem := counts_someStatements ih (keeps_block k) (counts_nested k)
    exact (Counts.lift peek).bind fun t =>
      ((hitem.repeated hrounds).further fun _ => rfl).bind fun _ => .pure _

/-! ## whole texts -/

def program : Counted Block := whole .statement (Reader.block (maxNesting + 1))

def wholeExpression : Counted Expr := whole .endOfInput (Reader.nested (maxNesting + 1)).expression

theorem counts_whole {α : Type} (expected : Expectation) {c : Counted α} {p : Parser α}
    (h : Counts k c p) : Counts k (whole expected c) (whole expected p) :=
  h.bind fun _ => (Counts.lift next).bind fun _ => .ite (.pure _) (.lift _)

theorem counts_program : Counts maxNesting program Block.parser :=
  counts_whole .statement (counts_block maxNesting)

theorem counts_wholeExpression : Counts maxNesting wholeExpression Expr.parser :=
  counts_whole .endOfInput (counts_nested maxNesting).expression

/-- what a counted parser makes of a stream with no level open at first -/
def fromStart {α : Type} (c : Counted α) (s : TokenStream) : Except Stop α × LevelCount :=
  let (result, count) := c.outcome s ⟨0, 0⟩
  (result.map Prod.fst, count)

theorem fromStart_of_counts {α : Type} {c : Counted α} {p : Parser α}
    (h : Counts maxNesting c p) (s : TokenStream) :
    ∃ highest ≤ maxNesting,
      c.fromStart s = (((p.run s).map Prod.fst).mapError .fault, ⟨0, highest⟩) := by
  obtain ⟨highest, hle, hrun⟩ := h s ⟨0, 0⟩ (Nat.zero_add _) (Nat.zero_le _)
  refine ⟨highest, hle, ?_⟩
  rw [fromStart, hrun]
  show (((p s).mapError Stop.fault).map Prod.fst, _) = (((p s).map Prod.fst).mapError Stop.fault, _)
  cases p s with
  | error e => rfl
  | ok r => rfl

end Counted

end PageScript
