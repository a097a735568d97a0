import PageScript.Parser.Statement
import PageScript.Proofs.Parser.Steps

/-!
# What parsers take

No parser gives a report back, and every round of a repetition that finds something takes at least
one, so the guard that ends a repetition without progress is never used.

* `Parser.Consumes`    what a parser takes at one stream, by the result that it gives;
* `Parser.Keeps`, `Parser.Advances`, `Parser.RoundsAdvance`   the same for every stream: nothing is
                       given back, something is taken, something is taken with every find;
* `advances_nested`, `keeps_block`   the parsers within a nesting budget.
-/

namespace PageScript.Parser

open TokenStream

variable {α β : Type} {p : Parser α} {f : α → Parser β} {s s' : TokenStream}

/-- where the parser succeeds it gives no report back, and with a result of the property it has
taken one -/
def Consumes (Q : α → Prop) (p : Parser α) (s : TokenStream) : Prop :=
  ∀ a s', p s = .ok (a, s') → s'.size ≤ s.size ∧ (Q a → s'.size < s.size)

/-- the parser gives no report back -/
def Keeps (p : Parser α) : Prop := ∀ s, Consumes (fun _ => False) p s

/-- the parser takes a report -/
def Advances (p : Parser α) : Prop := ∀ s, Consumes (fun _ => True) p s

/-- the parser takes a report where it finds something -/
def RoundsAdvance (item : Parser (Option α)) : Prop :=
  ∀ s, Consumes (fun found => found.isSome = true) item s

/-! ## parsers in two parts -/

namespace Consumes

variable {Q : α → Prop} {R : β → Prop}

theorem pure {a : α} (h : ¬ Q a) : Consumes Q (pure a) s := by
  intro b s' hp
  cases hp
  exact ⟨Nat.le_refl _, fun hQ => absurd hQ h⟩

theorem nothing : Consumes (fun found : Option α => found.isSome = true) (Pure.pure none) s :=
  pure Bool.false_ne_true

theorem fail (e : ParseError) : Consumes Q (fail e) s := by
  intro a s' hp
  cases hp

theorem imp {Q' : α → Prop} (hp : Consumes Q p s) (h : ∀ a, Q' a → Q a) : Consumes Q' p s :=
  fun a s' ha => ⟨(hp a s' ha).1, fun hQ => (hp a s' ha).2 (h a hQ)⟩

/-- the second part takes what has to be taken -/
theorem bind (hp : Consumes Q p s) (hf : ∀ a s', Consumes R (f a) s') :
    Consumes R (p >>= f) s := by
  intro b s'' h
  obtain ⟨a, s', ha, hb⟩ := bind_eq_ok h
  obtain ⟨hle, -⟩ := hp a s' ha
  obtain ⟨hle', hlt⟩ := hf a s' b s'' hb
  exact ⟨Nat.le_trans hle' hle, fun hR => Nat.lt_of_lt_of_le (hlt hR) hle⟩

/-- the first part has taken what has to be taken -/
theorem bind_first {P : Prop} (hp : Consumes (fun _ => P) p s) (hf : ∀ a, Keeps (f a))
    (h : ∀ b, R b → P) : Consumes R (p >>= f) s := by
  intro b s'' hpf
  obtain ⟨a, s', ha, hb⟩ := bind_eq_ok hpf
  obtain ⟨hle, hlt⟩ := hp a s' ha
  obtain ⟨hle', -⟩ := hf a s' b s'' hb
  exact ⟨Nat.le_trans hle' hle, fun hR => Nat.lt_of_le_of_lt hle' (hlt (h b hR))⟩

/-- the second part knows what stands in front -/
theorem peek_bind {f : Token → Parser β}
    (hf : ∀ t, s.front = some t.kind → Consumes R (f t) s) : Consumes R (peek >>= f) s := by
  intro b s' h
  obtain ⟨t, hfront, hb⟩ := peek_bind_eq_ok h
  exact hf t hfront b s' hb

end Consumes

theorem Advances.keeps (h : Advances p) : Keeps p := fun s => (h s).imp fun _ => False.elim

theorem RoundsAdvance.keeps {item : Parser (Option α)} (h : RoundsAdvance item) : Keeps item :=
  fun s => (h s).imp fun _ => False.elim

theorem Advances.before {R : β → Prop} (hp : Advances p) (hf : ∀ a, Keeps (f a))
    (s : TokenStream) : Consumes R (p >>= f) s :=
  (hp s).bind_first hf fun _ _ => trivial

theorem keeps_pure (a : α) : Keeps (pure a) := fun _ => .pure not_false

theorem keeps_fail (e : ParseError) : Keeps (fail e : Parser α) := fun _ => .fail e

theorem Keeps.bind (hp : Keeps p) (hf : ∀ a, Keeps (f a)) : Keeps (p >>= f) :=
  fun s => (hp s).bind hf

/-! ## single tokens -/

/-- taking the next token takes a report, unless it is the end of the input -/
theorem consumes_next (s : TokenStream) : Consumes (fun t => t.kind ≠ .endOfInput) next s := by
  intro t s' h
  rcases next_eq_ok h with rfl | ⟨ht, rfl, -⟩
  · exact ⟨Nat.le_succ _, fun _ => Nat.lt_succ_self _⟩
  · exact ⟨Nat.le_refl _, fun hne => absurd ht hne⟩

theorem keeps_next : Keeps next := fun s => (consumes_next s).imp fun _ => False.elim

theorem consumes_next_of_front {kind : TokenKind} (hf : s.front = some kind)
    (hk : kind ≠ .endOfInput) : Consumes (fun _ => True) next s := by
  intro t s' h
  obtain ⟨rfl, -⟩ := next_of_front h hf hk
  exact ⟨Nat.le_succ _, fun _ => Nat.lt_succ_self _⟩

theorem keeps_peek : Keeps peek := by
  intro s t s' h
  obtain ⟨rfl, -⟩ := peek_eq_ok h
  exact ⟨Nat.le_refl _, False.elim⟩

theorem keeps_here : Keeps here := keeps_peek.bind fun _ => keeps_pure _

theorem keeps_peekIsKeyword (word : String) : Keeps (peekIsKeyword word) :=
  keeps_peek.bind fun _ => keeps_pure _

theorem keeps_peekIsSymbol (sign : Char) : Keeps (peekIsSymbol sign) :=
  keeps_peek.bind fun _ => keeps_pure _

theorem keeps_eatKeyword (word : String) : Keeps (eatKeyword word) := by
  refine (keeps_peekIsKeyword word).bind fun b => ?_
  split
  · exact keeps_next.bind fun _ => keeps_pure _
  · exact keeps_pure _

theorem keeps_eatSymbol (sign : Char) : Keeps (eatSymbol sign) := by
  refine (keeps_peekIsSymbol sign).bind fun b => ?_
  split
  · exact keeps_next.bind fun _ => keeps_pure _
  · exact keeps_pure _

/-- what succeeds only with a token that is not the end has taken it -/
theorem advances_next_bind {f : Token → Parser β} (hf : ∀ t, Keeps (f t))
    (hend : ∀ t s, t.kind = .endOfInput → ∀ b s', f t s ≠ .ok (b, s')) :
    Advances (next >>= f) := by
  intro s b s'' h
  obtain ⟨t, s', ht, hb⟩ := bind_eq_ok h
  obtain ⟨hle, hlt⟩ := consumes_next s t s' ht
  obtain ⟨hle', -⟩ := hf t s' b s'' hb
  have hne : t.kind ≠ .endOfInput := fun hk => hend t s' hk b s'' hb
  exact ⟨Nat.le_trans hle' hle, fun _ => Nat.lt_of_le_of_lt hle' (hlt hne)⟩

theorem advances_expectKeyword (word : String) : Advances (expectKeyword word) := by
  refine advances_next_bind (fun t => ?_) fun t s hk b s' h => ?_
  · split
    · exact keeps_pure _
    · exact keeps_fail _
  · rw [Token.isKeyword, hk] at h
    cases h

theorem advances_expectSymbol (sign : Char) : Advances (expectSymbol sign) := by
  refine advances_next_bind (fun t => ?_) fun t s hk b s' h => ?_
  · split
    · exact keeps_pure _
    · exact keeps_fail _
  · rw [Token.isSymbol, hk] at h
    cases h

theorem advances_expectName (expected : Expectation) : Advances (expectName expected) := by
  refine advances_next_bind (fun t => ?_) fun t s hk b s' h => ?_
  · split
    · split
      · exact keeps_fail _
      · exact keeps_pure _
    · exact keeps_fail _
  · rw [hk] at h
    cases h

theorem advances_expectMember : Advances expectMember := by
  refine advances_next_bind (fun t => ?_) fun t s hk b s' h => ?_
  · split
    · exact keeps_pure _
    · exact keeps_fail _
  · rw [hk] at h
    cases h

theorem keeps_endOfStatement : Keeps endOfStatement := by
  refine keeps_peek.bind fun t => ?_
  split
  · exact keeps_next.bind fun _ => keeps_pure _
  split
  · exact keeps_pure _
  · exact keeps_fail _

theorem advances_expectEnd (word : String) : Advances (expectEnd word) := by
  refine (advances_expectKeyword "end").before fun _ => keeps_next.bind fun t => ?_
  split
  · exact keeps_pure _
  split
  · exact keeps_fail _
  · exact keeps_fail _

/-! ## repetition -/

theorem Keeps.collect {item : Parser (Option α)} (h : Keeps item) : Keeps (collect item) := by
  intro s as s' hc
  refine ⟨?_, False.elim⟩
  refine collect_induct (motive := fun _ s s' => s'.size ≤ s.size) ?_ ?_ ?_ hc
  · intro s s' hitem
    exact (h s _ s' hitem).1
  · intro s s₁ s' a as _ hlt _ ih
    exact Nat.le_trans ih (Nat.le_of_lt hlt)
  · intro s s' a hitem _
    exact (h s _ s' hitem).1

/-! ## operators -/

theorem keeps_groupSign (g : OperatorGroup) (sign : Char) : Keeps (groupSign g sign) := by
  refine keeps_peek.bind fun t => ?_
  dsimp only
  split
  · exact keeps_next.bind fun _ => keeps_pure _
  · exact keeps_pure _
  · exact keeps_fail _

theorem keeps_groupOperator (g : OperatorGroup) : Keeps (groupOperator g) := by
  refine keeps_peek.bind fun t => ?_
  split
  · split
    · exact keeps_next.bind fun _ => keeps_pure _
    · exact keeps_pure _
  · split
    · exact keeps_next.bind fun _ => (keeps_groupSign g _).bind fun _ => keeps_pure _
    · exact keeps_pure _
  · exact keeps_pure _

theorem rounds_groupTail (g : OperatorGroup) {operand : Parser Expr}
    (ho : Advances operand) : RoundsAdvance (groupTail g operand) := by
  intro s
  refine (keeps_groupOperator g s).bind fun found s => ?_
  split
  · exact ho.before (fun _ => keeps_pure _) s
  · exact .nothing

/-- an expression of some groups takes what its leftmost operand takes -/
theorem consumes_levels (groups : List OperatorGroup) {operand : Parser Expr}
    (ho : Advances operand) {P : Prop} {first : Parser Expr}
    (hfirst : ∀ s, Consumes (fun _ => P) first s) (s : TokenStream) :
    Consumes (fun _ => P) (levels groups first operand) s := by
  induction groups generalizing P first s with
  | nil => exact hfirst s
  | cons g groups ih =>
    have htails : Keeps (collect (groupTail g (levels groups operand operand))) :=
      (rounds_groupTail g (ih ho)).keeps.collect
    exact (ih hfirst s).bind_first (fun _ => htails.bind fun _ => keeps_pure _) fun _ => id

/-! ## operands -/

/-- what stands one level further in: expressions and operands take a report, and nothing gives
one back -/
structure NestedAdvances (inner : Nested Parser) : Prop where
  expression : Advances inner.expression
  factor : ∀ loc, Advances (inner.factor loc)
  continued : ∀ seed, Keeps (inner.continued seed)

theorem rounds_member : RoundsAdvance member := by
  intro s
  refine (keeps_eatSymbol '.' s).bind fun b s => ?_
  split
  · exact advances_expectMember.before (fun _ => keeps_pure _) s
  · exact .nothing

theorem keeps_path (first : String) (loc : Location) : Keeps (path first loc) :=
  rounds_member.keeps.collect.bind fun _ => keeps_pure _

section operands

variable {inner : Nested Parser} (hinner : NestedAdvances inner)

include hinner

theorem rounds_argument : RoundsAdvance (argument inner) := by
  intro s
  refine (keeps_peek s).bind fun t s => ?_
  split
  · exact .nothing
  refine hinner.expression.before (fun arg => keeps_peek.bind fun t => ?_) s
  split
  · exact keeps_next.bind fun _ => keeps_pure _
  split
  · exact keeps_pure _
  · exact keeps_fail _

theorem keeps_arguments : Keeps (arguments inner) := (rounds_argument hinner).keeps.collect

theorem rounds_argumentList : RoundsAdvance (argumentList inner) := by
  intro s
  refine (keeps_eatSymbol '(' s).bind fun b s => ?_
  split
  · refine (keeps_arguments hinner s).bind fun args s => ?_
    exact (advances_expectSymbol ')').before (fun _ => keeps_pure _) s
  · exact .nothing

theorem keeps_calls (callee : Expr) : Keeps (calls inner callee) :=
  (rounds_argumentList hinner).keeps.collect.bind fun _ => keeps_pure _

theorem keeps_wordFactor (token : Token) (word : String) : Keeps (wordFactor inner token word) := by
  unfold wordFactor
  split
  · exact keeps_calls hinner _
  split
  · exact keeps_calls hinner _
  split
  · exact (advances_expectName .className).keeps.bind fun _ => keeps_pure _
  split
  · exact hinner.expression.keeps.bind fun _ => keeps_pure _
  split
  · exact keeps_fail _
  · exact (keeps_path word token.location).bind fun _ => keeps_calls hinner _

theorem advances_factorIn : Advances (factorIn inner) := by
  refine advances_next_bind (fun t => ?_) fun t s hk b s' h => ?_
  · dsimp only
    split
    · exact keeps_calls hinner _
    · exact keeps_calls hinner _
    · exact keeps_wordFactor hinner t _
    · exact (hinner.factor _).keeps.bind fun _ => keeps_pure _
    · refine hinner.expression.keeps.bind fun e => ?_
      exact (advances_expectSymbol ')').keeps.bind fun _ => keeps_calls hinner _
    · exact keeps_fail _
    · exact keeps_fail _
    · exact keeps_fail _
  · simp only [hk] at h
    cases h

end operands

theorem advances_nested (k : Nat) : NestedAdvances (nested k) := by
  induction k with
  | zero =>
    refine ⟨?_, fun _ _ => .fail _, fun _ => keeps_fail _⟩
    exact fun s => (keeps_here s).bind fun _ _ => .fail _
  | succ k ih =>
    have hfactor : Advances (factorIn (nested k)) := advances_factorIn ih
    refine ⟨consumes_levels precedence hfactor hfactor, fun _ => hfactor, fun seed => ?_⟩
    exact consumes_levels precedence hfactor (keeps_pure seed)

/-! ## statements that call -/

section calls

variable {inner : Nested Parser} (hinner : NestedAdvances inner)

include hinner

theorem advances_explicitCall : Advances (explicitCall inner) := by
  intro s
  refine (keeps_next s).bind fun _ s => (keeps_peek s).bind fun t s => ?_
  exact hinner.expression.before (fun _ => keeps_pure _) s

theorem keeps_callFromFirst (loc : Location) (target first : Expr) :
    Keeps (callFromFirst inner loc target first) := by
  refine (keeps_eatSymbol ',').bind fun b => ?_
  split
  · exact (keeps_arguments hinner).bind fun _ => keeps_pure _
  · exact keeps_pure _

theorem keeps_callFromSeed (loc : Location) (target seed : Expr) :
    Keeps (callFromSeed inner loc target seed) := by
  refine (keeps_peekIsSymbol ',').bind fun b => ?_
  split
  · exact (keeps_pure seed).bind (keeps_callFromFirst hinner loc target)
  · exact (hinner.continued seed).bind (keeps_callFromFirst hinner loc target)

omit hinner in
theorem keeps_closedCall (loc opening : Location) (target : Expr) (args : List Expr) :
    Keeps (closedCall loc opening target args) := by
  unfold closedCall
  split
  · exact keeps_pure _
  · exact keeps_pure _
  · exact keeps_fail _

theorem keeps_afterArguments (loc opening : Location) (target : Expr) (args : List Expr) :
    Keeps (afterArguments inner loc opening target args) := by
  refine keeps_peek.bind fun t => ?_
  split
  · exact keeps_next.bind fun _ => hinner.expression.keeps.bind fun _ => keeps_pure _
  split
  · exact keeps_closedCall loc opening target args
  split
  · exact keeps_callFromSeed hinner loc target _
  split
  · exact keeps_fail _
  · exact keeps_fail _

theorem keeps_afterPath (loc : Location) (target : Expr) :
    Keeps (afterPath inner loc target) := by
  refine keeps_peek.bind fun t => ?_
  split
  · exact keeps_next.bind fun _ => hinner.expression.keeps.bind fun _ => keeps_pure _
  split
  · refine keeps_next.bind fun _ => (keeps_arguments hinner).bind fun args => ?_
    refine (advances_expectSymbol ')').keeps.bind fun _ => ?_
    exact keeps_afterArguments hinner loc t.location target args
  · exact (keeps_arguments hinner).bind fun _ => keeps_pure _

theorem advances_assignmentOrCall : Advances (assignmentOrCall inner) :=
  (advances_expectName .statement).before fun _ =>
    (keeps_path _ _).bind fun target => keeps_afterPath hinner _ target

end calls

/-! ## declarations -/

theorem rounds_anotherName : RoundsAdvance anotherName := by
  intro s
  refine (keeps_eatSymbol ',' s).bind fun b s => ?_
  split
  · exact (advances_expectName .variableName).before (fun _ => keeps_pure _) s
  · exact .nothing

theorem advances_names : Advances names :=
  (advances_expectName .variableName).before fun _ =>
    rounds_anotherName.keeps.collect.bind fun _ => keeps_pure _

theorem keeps_passing : Keeps passing := by
  refine (keeps_eatKeyword "byref").bind fun b => ?_
  split
  · exact keeps_pure _
  refine (keeps_eatKeyword "byval").bind fun b => ?_
  split
  · exact keeps_pure _
  · exact keeps_pure _

theorem advances_param : Advances param := by
  intro s
  refine (keeps_passing s).bind fun byRef s => ?_
  exact (advances_expectName .parameterName).before (fun _ => keeps_pure _) s

theorem rounds_listedParam : RoundsAdvance listedParam := by
  intro s
  refine (keeps_peekIsSymbol ')' s).bind fun b s => ?_
  split
  · exact .nothing
  refine advances_param.before (fun p => (keeps_peekIsSymbol ')').bind fun b => ?_) s
  split
  · exact (advances_expectSymbol ',').keeps.bind fun _ => keeps_pure _
  · exact keeps_pure _

theorem keeps_params : Keeps params := by
  refine (keeps_eatSymbol '(').bind fun b => ?_
  split
  · refine rounds_listedParam.keeps.collect.bind fun ps => ?_
    exact (advances_expectSymbol ')').keeps.bind fun _ => keeps_pure _
  · exact keeps_pure _

theorem advances_fields : Advances fields :=
  advances_names.before fun _ => keeps_endOfStatement.bind fun _ => keeps_pure _

section bodies

variable {block : Parser Block} (hblock : Keeps block)

include hblock

theorem advances_function (kind : FunctionKind) : Advances (function block kind) := by
  intro s
  refine (keeps_next s).bind fun keyword s => ?_
  refine (advances_expectName .functionName).before (fun name => ?_) s
  refine keeps_params.bind fun ps => keeps_endOfStatement.bind fun _ => hblock.bind fun body => ?_
  refine (advances_expectEnd kind.keyword).keeps.bind fun _ => ?_
  exact keeps_endOfStatement.bind fun _ => keeps_pure _

theorem rounds_members : RoundsAdvance (members block) := by
  intro s
  refine .peek_bind fun t hfront => ?_
  have hfields (s : TokenStream) :
      Consumes (fun found => found.isSome = true) (do return some (← fields)) s :=
    advances_fields.before (fun _ => keeps_pure _) s
  have hmethod (kind : FunctionKind) : Consumes (fun found => found.isSome = true)
      (do return some [Member.method (← function block kind)]) s :=
    (advances_function hblock kind).before (fun _ => keeps_pure _) s
  split
  · next ht =>
    refine (consumes_next_of_front hfront ?_).bind_first (fun _ => keeps_pure _) fun _ _ => trivial
    rw [isSymbol_iff.mp ht]
    simp
  split
  · exact .nothing
  split
  · exact (keeps_next s).bind fun _ => hfields
  split
  · exact hmethod .function
  split
  · exact hmethod .sub
  split
  · next ht =>
    -- the word in front is taken even where the member behind it is left to the next round
    refine (consumes_next_of_front hfront ?_).bind_first (fun _ => ?_) fun _ _ => trivial
    · intro hk
      rw [Token.isKeyword, Token.isKeyword, hk] at ht
      cases ht
    refine (keeps_peekIsKeyword "function").bind fun _ => ?_
    refine (keeps_peekIsKeyword "sub").bind fun _ => ?_
    split
    · exact keeps_pure _
    · exact advances_fields.keeps.bind fun _ => keeps_pure _
  · exact .fail _

theorem advances_classDecl : Advances (classDecl block) := by
  intro s
  refine (keeps_next s).bind fun keyword s => ?_
  refine (advances_expectName .className).before (fun name => ?_) s
  refine keeps_endOfStatement.bind fun _ => (rounds_members hblock).keeps.collect.bind fun ms => ?_
  refine (advances_expectEnd "class").keeps.bind fun _ => ?_
  exact keeps_endOfStatement.bind fun _ => keeps_pure _

theorem keeps_lastBranch : Keeps (lastBranch block) := by
  refine keeps_peek.bind fun t => ?_
  split
  · refine keeps_next.bind fun _ => hblock.bind fun b => ?_
    refine (advances_expectEnd "if").keeps.bind fun _ => ?_
    exact keeps_endOfStatement.bind fun _ => keeps_pure _
  split
  · refine (advances_expectEnd "if").keeps.bind fun _ => ?_
    exact keeps_endOfStatement.bind fun _ => keeps_pure _
  · exact keeps_fail _

variable {inner : Nested Parser} (hinner : NestedAdvances inner)

include hinner

/-! ## conditions -/

theorem advances_branch : Advances (branch inner block) :=
  hinner.expression.before fun _ => (advances_expectKeyword "then").keeps.bind fun _ =>
    hblock.bind fun _ => keeps_pure _

theorem rounds_elseIf : RoundsAdvance (elseIf inner block) := by
  intro s
  refine (keeps_peek s).bind fun t s => ?_
  split
  · refine (keeps_next s).bind fun _ s => ?_
    exact (advances_branch hblock hinner).before (fun _ => keeps_pure _) s
  · exact .nothing

theorem advances_condition (loc : Location) : Advances (condition inner block loc) :=
  (advances_branch hblock hinner).before fun _ =>
    (rounds_elseIf hblock hinner).keeps.collect.bind fun _ =>
      (keeps_lastBranch hblock).bind fun _ => keeps_pure _

/-! ## blocks -/

omit hblock in
theorem consumes_chunkStatements {text : String} (hfront : s.front = some (.chunk text))
    (loc : Location) : Consumes (fun _ => True) (chunkStatements inner loc text) s := by
  refine (consumes_next_of_front hfront (by simp)).bind_first (fun _ => ?_) fun _ => id
  refine keeps_peek.bind fun t => ?_
  split
  · refine keeps_next.bind fun _ => hinner.expression.keeps.bind fun _ => ?_
    exact keeps_endOfStatement.bind fun _ => keeps_pure _
  · exact keeps_pure _

omit hblock hinner in
theorem keeps_exitKind : Keeps exitKind := by
  refine (keeps_eatKeyword "function").bind fun b => ?_
  split
  · exact keeps_pure _
  refine (keeps_eatKeyword "sub").bind fun b => ?_
  split
  · exact keeps_pure _
  · exact keeps_next.bind fun _ => keeps_fail _

omit hblock hinner in
theorem consumes_ended {statement : Parser Stmt} (h : Consumes (fun _ => True) statement s) :
    Consumes (fun found => found.isSome = true) (ended statement) s :=
  h.bind_first (fun _ => keeps_endOfStatement.bind fun _ => keeps_pure _) fun _ _ => trivial

theorem consumes_wordStatements {word : String} (hfront : s.front = some (.word word))
    (token : Token) :
    Consumes (fun found => found.isSome = true) (wordStatements inner block token word) s := by
  have hnext : Consumes (fun _ => True) next s := consumes_next_of_front hfront (by simp)
  unfold wordStatements
  split
  · exact .nothing
  · exact .nothing
  · exact .nothing
  · exact (advances_function hblock .function).before (fun _ => keeps_pure _) s
  · exact (advances_function hblock .sub).before (fun _ => keeps_pure _) s
  · exact (advances_classDecl hblock).before (fun _ => keeps_pure _) s
  · refine hnext.bind fun _ s => advances_names.before (fun _ => ?_) s
    exact keeps_endOfStatement.bind fun _ => keeps_pure _
  · refine hnext.bind fun _ s => ?_
    exact (advances_condition hblock hinner token.location).before (fun _ => keeps_pure _) s
  · exact hnext.bind_first (fun _ => keeps_pure _) fun _ _ => trivial
  · exact consumes_ended (advances_explicitCall hinner s)
  · refine consumes_ended (hnext.bind fun _ s => ?_)
    exact (advances_expectKeyword "explicit").before (fun _ => keeps_pure _) s
  · refine consumes_ended (hnext.bind_first (fun _ => ?_) fun _ => id)
    exact keeps_exitKind.bind fun _ => keeps_pure _
  · exact consumes_ended (advances_assignmentOrCall hinner s)

theorem rounds_someStatements : RoundsAdvance (someStatements inner block) := by
  intro s
  refine .peek_bind fun t hfront => ?_
  split
  · exact .nothing
  · next ht =>
    refine (consumes_next_of_front hfront ?_).bind_first (fun _ => keeps_pure _) fun _ _ => trivial
    rw [ht]
    simp
  · next text ht =>
    rw [ht] at hfront
    exact (consumes_chunkStatements hinner hfront t.location).bind_first (fun _ => keeps_pure _)
      fun _ _ => trivial
  · next word ht =>
    rw [ht] at hfront
    exact consumes_wordStatements hblock hinner hfront t
  · exact .fail _

end bodies

/-- **A block gives nothing back.** -/
theorem keeps_block (k : Nat) : Keeps (block k) := by
  induction k with
  | zero => exact keeps_here.bind fun _ => keeps_fail _
  | succ k ih =>
    refine keeps_peek.bind fun t => ?_
    exact (rounds_someStatements ih (advances_nested k)).keeps.collect.bind fun _ => keeps_pure _

end PageScript.Parser
