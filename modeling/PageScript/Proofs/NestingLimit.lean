import PageScript.Proofs.Parser.CountedBlock
import PageScript.Proofs.Program.Nesting
import PageScript.Proofs.RoundTrip

/-!
# The nesting limit

Reading always ends, and what is accepted is not nested deeper than the limit.

* `Parser.LoopsAdvance`     every round of a loop that does not leave it takes a report;
* `Parser.GrammarCounts`    every function of the grammar sets the counter of levels back, with a
                            result as with a fault, and does not count above the limit;
* `nesting_limit`           whole texts, and the trees that are accepted;
* `deepStatements_accepted`   the text of a chunk, and the call of a statement, have no level.
-/

namespace PageScript

open PageScript.Parser

namespace Parser

open Counted (Counts)

/-- in each loop of the grammar, where `k` levels of nesting are allowed, a round that finds
something takes a report -/
structure LoopsAdvance (k : Nat) : Prop where
  statements : RoundsAdvance (someStatements (nested k) (block k))
  members : RoundsAdvance (members (block k))
  params : RoundsAdvance listedParam
  names : RoundsAdvance anotherName
  elseIfs : RoundsAdvance (elseIf (nested k) (block k))
  arguments : RoundsAdvance (argument (nested k))
  calls : RoundsAdvance (argumentList (nested k))
  selections : RoundsAdvance member
  operators : ∀ g groups, RoundsAdvance
    (groupTail g (levels groups (factorIn (nested k)) (factorIn (nested k))))

theorem loopsAdvance (k : Nat) : LoopsAdvance k where
  statements := rounds_someStatements (keeps_block k) (advances_nested k)
  members := rounds_members (keeps_block k)
  params := rounds_listedParam
  names := rounds_anotherName
  elseIfs := rounds_elseIf (keeps_block k) (advances_nested k)
  arguments := rounds_argument (advances_nested k)
  calls := rounds_argumentList (advances_nested k)
  selections := rounds_member
  operators g groups := by
    have hfactor := advances_factorIn (advances_nested k)
    exact rounds_groupTail g (consumes_levels groups hfactor hfactor)

/-- where `k` levels of nesting are allowed, each function of the grammar does with a counter what
it does with a budget; the functions that only look at single tokens leave the counter alone -/
structure GrammarCounts (k : Nat) : Prop where
  tokens : ∀ {α : Type} (p : Parser α), Counts k (Reader.tokens p) p
  statements : Counts k
    (Reader.repeated (someStatements (Reader.nested (k + 1)) (Reader.block (k + 1))))
    (collect (someStatements (nested k) (block k)))
  function : ∀ kind, Counts k (function (Reader.block (k + 1)) kind) (function (block k) kind)
  params : Counts k params params
  classDecl : Counts k (classDecl (Reader.block (k + 1))) (classDecl (block k))
  names : Counts k names names
  condition : ∀ loc, Counts k (condition (Reader.nested (k + 1)) (Reader.block (k + 1)) loc)
    (condition (nested k) (block k) loc)
  branch : Counts k (branch (Reader.nested (k + 1)) (Reader.block (k + 1)))
    (branch (nested k) (block k))
  explicitCall : Counts k (explicitCall (Reader.nested (k + 1))) (explicitCall (nested k))
  assignmentOrCall : Counts k (assignmentOrCall (Reader.nested (k + 1)))
    (assignmentOrCall (nested k))
  expression : Counts k (Reader.nested (k + 1)).expression (nested k).expression
  continued : ∀ seed, Counts k ((Reader.nested (k + 1)).continued seed) ((nested k).continued seed)
  operators : ∀ groups, Counts k
    (levels groups (factorIn (Reader.nested (k + 1))) (factorIn (Reader.nested (k + 1))))
    (levels groups (factorIn (nested k)) (factorIn (nested k)))
  operand : Counts k (factorIn (Reader.nested (k + 1))) (factorIn (nested k))
  path : ∀ first loc, Counts k (path first loc) (path first loc)
  calls : ∀ callee, Counts k (calls (Reader.nested (k + 1)) callee) (calls (nested k) callee)
  arguments : Counts k (arguments (Reader.nested (k + 1))) (arguments (nested k))
  block : Counts k (Reader.block (k + 1)) (block k)

open Counted in
theorem grammarCounts (k : Nat) : GrammarCounts k := by
  have hblock := counts_block k
  have hkeeps := keeps_block k
  have hinner := counts_nested k
  have hstatements := counts_someStatements hblock hkeeps hinner
  have hoperand := counts_factorIn hinner
  exact {
    tokens := Counts.lift
    block := hblock
    statements := hstatements.repeated (loopsAdvance k).statements
    function := counts_function hblock
    params := counts_params
    classDecl := counts_classDecl hblock hkeeps
    names := counts_names
    condition := counts_condition hblock hkeeps hinner
    branch := counts_branch hblock hinner
    explicitCall := counts_explicitCall hinner
    assignmentOrCall := counts_assignmentOrCall hinner
    expression := hinner.expression
    continued := hinner.continued
    operators groups := counts_levels groups hoperand hoperand
      (advances_factorIn hinner.advances)
    operand := hoperand
    path := counts_path
    calls := counts_calls hinner
    arguments := counts_arguments hinner }

/-- the calls that can be read keep to the levels allowed where they stand -/
theorem ofReadCalls_within : OfReadCalls (callsWithin Expr.codeNesting) where
  mono k k' e hk h := by
    rw [callsWithin, decide_eq_true_eq] at h ⊢
    exact Nat.le_trans h hk
  chunk {k text} loc _ := by
    have hchunk : (Expr.call loc (.path loc writePath) [.literal loc (.string text)]).isChunk
        = true := by
      simp [Expr.isChunk]
    rw [callsWithin, Expr.codeNesting, if_pos hchunk]
    exact decide_eq_true (Nat.zero_le k)
  line {k e} h := by
    rw [callsWithin, decide_eq_true_eq]
    have hcall : e.callNesting ≤ k := by
      fun_cases Expr.acceptedLine k e with
      | case1 l l' names args =>
        simp only [Expr.acceptedLine, Bool.and_eq_true, decide_eq_true_eq] at h
        exact h.2
      | case2 l callee args hne =>
        simp only [Expr.acceptedLine.eq_2 k l callee args hne, Bool.and_eq_true,
          decide_eq_true_eq] at h
        rw [Expr.callNesting.eq_2 _ (by rintro _ _ _ _ ⟨⟩; exact hne _ _ rfl)]
        exact h.2
      | case3 e hne hne' =>
        rw [Expr.acceptedLine.eq_3 k e hne hne'] at h
        cases h
    rw [Expr.codeNesting]
    split
    · exact Nat.zero_le k
    · exact hcall

end Parser

theorem Block.nesting_of_ofText {name text : String} {mode : Mode} {b : Block}
    (h : Block.ofText name mode text = .ok b) : b.nesting Expr.codeNesting ≤ maxNesting := by
  obtain ⟨s', hp⟩ := run_eq_ok.mp h
  obtain ⟨s₁, t, hb, -, -⟩ := toEnd_eq_ok hp
  have hlex := TokenStream.lexical_ofText name mode text
  obtain ⟨hw, hc⟩ := (block_sound ofReadCalls_within maxNesting _ _ _ hlex hb).1
  exact Block.nesting_le b hw hc

/-- **Reading ends and honours the nesting limit.**  Every round of a loop takes a report or leaves
the loop.  With one counter for all levels, every function of the grammar, and with it every text,
comes to the result or the fault that it comes to here, in no more rounds than there are reports
and with the counter back where it was; the counter never exceeds the limit.  And every tree that
is accepted keeps to the limit, where the text of a chunk counts nothing. -/
theorem nesting_limit :
    (∀ k, LoopsAdvance k) ∧ (∀ k, GrammarCounts k)
      ∧ (∀ name mode text, ∃ highest ≤ maxNesting,
          Counted.program.fromStart (TokenStream.ofText name mode text)
            = ((Block.ofText name mode text).mapError .fault, ⟨0, highest⟩))
      ∧ (∀ name text, ∃ highest ≤ maxNesting,
          Counted.wholeExpression.fromStart (TokenStream.ofText name .code text)
            = ((Expr.ofText name text).mapError .fault, ⟨0, highest⟩))
      ∧ (∀ name mode text b, Block.ofText name mode text = .ok b →
          b.nesting Expr.codeNesting ≤ maxNesting)
      ∧ ∀ name text e, Expr.ofText name text = .ok e → e.nesting + 1 ≤ maxNesting := by
  refine ⟨loopsAdvance, grammarCounts, ?_, ?_, fun _ _ _ _ h => Block.nesting_of_ofText h, ?_⟩
  · intro name mode text
    exact Counted.fromStart_of_counts Counted.counts_program _
  · intro name text
    exact Counted.fromStart_of_counts Counted.counts_wholeExpression _
  · intro name text e h
    obtain ⟨s', -, htaken⟩ := Expr.taken_of_ofText h
    exact htaken.depth_lt

def signedArguments : Block :=
  ⟨⟨"page", 1, 1⟩, [.expr ⟨"page", 1, 1⟩ (.call ⟨"page", 1, 1⟩ (.path ⟨"page", 1, 1⟩ ["f"])
    [.paren ⟨"page", 1, 3⟩ (.unary ⟨"page", 1, 4⟩ .neg (.literal ⟨"page", 1, 5⟩ (.integer 1))),
      .unary ⟨"page", 1, 9⟩ .not (.path ⟨"page", 1, 13⟩ ["a"])])]⟩

theorem nesting_limit_signedArguments :
    Block.ofText "page" .code "f (-1), not a" = .ok signedArguments
      ∧ signedArguments.nesting Expr.codeNesting ≤ maxNesting
      ∧ Expr.ofText "page" "Not f(1,) <> -x AND 2" = .ok negatedComparison
      ∧ negatedComparison.nesting + 1 ≤ maxNesting := by
  have hb : Block.ofText "page" .code "f (-1), not a" = .ok signedArguments :=
    eq_ok_of_toOption (by decide +kernel)
  have he : Expr.ofText "page" "Not f(1,) <> -x AND 2" = .ok negatedComparison :=
    eq_ok_of_toOption (by decide +kernel)
  obtain ⟨-, -, -, -, hblock, hexpr⟩ := nesting_limit
  exact ⟨hb, hblock _ _ _ _ hb, he, hexpr _ _ _ he⟩

/-! ## what counts nothing -/

/-- a statement within conditions within each other -/
def conditionsAround (s : Stmt) : Nat → Block
  | 0 => ⟨default, [s]⟩
  | n + 1 => ⟨default, [.cond default (.path default ["a"]) (conditionsAround s n) ⟨default, []⟩]⟩

/-- a chunk in a block at the limit -/
def deepChunk : Block :=
  conditionsAround (writeStatement default (.literal default (.string "\n"))) 63

def deepCall : Block :=
  conditionsAround
    (callStatement default (.path default ["f"]) [.literal default (.integer 1)]) 62

/-- what is printable is accepted with all its levels -/
theorem Block.exists_ofText_nesting (calls : Expr → Nat) (hcalls : ∀ e, calls e.bare = calls e)
    {b : Block} (h : b.printable = true) :
    ∃ b', Block.ofText "t" .code b.source = .ok b' ∧ b'.nesting calls = b.nesting calls := by
  obtain ⟨b', hb', hbare⟩ := Block.ofText_of_printable h "t"
  refine ⟨b', hb', ?_⟩
  rw [← Block.nesting_bare hcalls b', hbare, Block.nesting_bare hcalls]

/-- **Not every argument has a level.**  A chunk is accepted in a block at the limit, where its text
is an argument one level deeper.  And where the call of a statement such as `f 1` is itself counted
as a level, its argument can be one level deeper as well. -/
theorem deepStatements_accepted :
    (∃ b, Block.ofText "t" .code deepChunk.source = .ok b
        ∧ maxNesting < b.nesting Expr.callNesting)
      ∧ ∃ b, Block.ofText "t" .code deepCall.source = .ok b
        ∧ maxNesting < b.nesting (fun e => e.nesting + 1) := by
  constructor
  · have hprintable : deepChunk.printable = true := by decide +kernel
    obtain ⟨b, hb, hlevels⟩ :=
      Block.exists_ofText_nesting Expr.callNesting Expr.callNesting_bare hprintable
    refine ⟨b, hb, ?_⟩
    rw [hlevels]
    decide +kernel
  · have hprintable : deepCall.printable = true := by decide +kernel
    obtain ⟨b, hb, hlevels⟩ := Block.exists_ofText_nesting (fun e => e.nesting + 1)
      (fun e => congrArg (· + 1) (Expr.nesting_bare e)) hprintable
    refine ⟨b, hb, ?_⟩
    rw [hlevels]
    decide +kernel

end PageScript
