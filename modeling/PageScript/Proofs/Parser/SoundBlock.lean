import PageScript.Proofs.Parser.SoundExpression
import PageScript.Proofs.Program.Accepted

/-!
# What a block is read as

A block that has been read is well formed, and every call in it has any property of the calls that
can be read (`block_sound`); so it is an accepted one (`block_yields`).

`Yields p Q` says that a parser which succeeds on a stream of proper tokens yields a result with a
property, and leaves a stream of proper tokens.  There is one rule for each way of combining
parsers (`Yields.bind`, `Yields.collect`), so each parser of statements has its property by the
properties of its parts.
-/

namespace PageScript

open TokenStream

namespace Parser

variable {α β : Type} {p : Parser α} {f : α → Parser β} {Q : α → Prop} {R : β → Prop}

/-! ## rules -/

/-- if the parser succeeds on proper tokens, its result has the property and proper tokens are
left -/
def Yields (p : Parser α) (Q : α → Prop) : Prop :=
  ∀ s a s', s.Lexical → p s = .ok (a, s') → Q a ∧ s'.Lexical

theorem Yields.pure {a : α} (h : Q a) : Yields (pure a) Q := by
  intro s b s' hs hp
  cases hp
  exact ⟨h, hs⟩

theorem Yields.fail (e : ParseError) : Yields (fail e) Q := by
  intro s a s' _ hp
  cases hp

theorem Yields.bind (hp : Yields p Q) (hf : ∀ a, Q a → Yields (f a) R) : Yields (p >>= f) R := by
  intro s b s'' hs h
  obtain ⟨a, s', ha, hb⟩ := bind_eq_ok h
  obtain ⟨hQ, hs'⟩ := hp s a s' hs ha
  exact hf a hQ s' b s'' hs' hb

theorem Yields.collect {item : Parser (Option α)} (h : Yields item fun o => ∀ a ∈ o, Q a) :
    Yields (collect item) fun as => ∀ a ∈ as, Q a := by
  intro s as s' hs hc
  revert hs
  refine collect_induct
    (motive := fun as s s' => s.Lexical → (∀ a ∈ as, Q a) ∧ s'.Lexical) ?_ ?_ ?_ hc
  · intro s s' hitem hs
    refine ⟨?_, (h s _ s' hs hitem).2⟩
    intro a ha
    cases ha
  · intro s s₁ s' a as hitem _ _ ih hs
    obtain ⟨ha, hs₁⟩ := h s _ s₁ hs hitem
    obtain ⟨has, hs'⟩ := ih hs₁
    exact ⟨List.forall_mem_cons.mpr ⟨ha a rfl, has⟩, hs'⟩
  · intro s s' a hitem _ hs
    obtain ⟨ha, hs'⟩ := h s _ s' hs hitem
    exact ⟨List.forall_mem_singleton.mpr (ha a rfl), hs'⟩

/-! ## single tokens -/

/-- the end of the input, or a token that scanning reports in front of it -/
def ProperToken (t : Token) : Prop := t.kind ≠ .endOfInput → t.kind.lexical = true

theorem next_yields : Yields next ProperToken := by
  intro s t s' hs h
  rcases next_eq_ok h with rfl | ⟨ht, rfl, -⟩
  · exact ⟨fun _ => hs.head, hs.tail⟩
  · exact ⟨fun hne => absurd ht hne, hs⟩

theorem peek_yields : Yields peek ProperToken := by
  intro s t s' hs h
  obtain ⟨rfl, hf⟩ := peek_eq_ok h
  refine ⟨fun hne => ?_, hs⟩
  obtain ⟨pending, finish⟩ := s'
  match pending, hf, hs with
  | [], hf, _ => exact absurd (Option.some.inj hf).symm hne
  | .ok u :: rest, hf, hs =>
    have hhead := hs u.kind List.mem_cons_self
    rw [show u.kind = t.kind from Option.some.inj hf] at hhead
    exact hhead
  | .error _ :: _, hf, _ => cases hf

theorem here_yields : Yields here fun _ => True :=
  .bind peek_yields fun _ _ => .pure trivial

theorem peekIsSymbol_yields (c : Char) : Yields (peekIsSymbol c) fun _ => True :=
  .bind peek_yields fun _ _ => .pure trivial

theorem peekIsKeyword_yields (w : String) : Yields (peekIsKeyword w) fun _ => True :=
  .bind peek_yields fun _ _ => .pure trivial

theorem eatSymbol_yields (c : Char) : Yields (eatSymbol c) fun _ => True := by
  refine .bind (peekIsSymbol_yields c) fun b _ => ?_
  split
  · exact .bind next_yields fun _ _ => .pure trivial
  · exact .pure trivial

theorem eatKeyword_yields (w : String) : Yields (eatKeyword w) fun _ => True := by
  refine .bind (peekIsKeyword_yields w) fun b _ => ?_
  split
  · exact .bind next_yields fun _ _ => .pure trivial
  · exact .pure trivial

theorem expectSymbol_yields (c : Char) : Yields (expectSymbol c) fun _ => True := by
  refine .bind next_yields fun t _ => ?_
  split
  · exact .pure trivial
  · exact .fail _

theorem expectKeyword_yields (w : String) : Yields (expectKeyword w) fun _ => True := by
  refine .bind next_yields fun t _ => ?_
  split
  · exact .pure trivial
  · exact .fail _

theorem endOfStatement_yields : Yields endOfStatement fun _ => True := by
  refine .bind peek_yields fun t _ => ?_
  split
  · exact .bind next_yields fun _ _ => .pure trivial
  split
  · exact .pure trivial
  · exact .fail _

theorem expectEnd_yields (w : String) : Yields (expectEnd w) fun _ => True := by
  refine .bind (expectKeyword_yields "end") fun _ _ => .bind next_yields fun t _ => ?_
  split
  · exact .pure trivial
  split
  · exact .fail _
  · exact .fail _

/-- a name is a word that is not reserved -/
theorem expectName_yields (expected : Expectation) :
    Yields (expectName expected) fun r => isName r.1 = true := by
  refine .bind next_yields fun t ht => ?_
  cases hk : t.kind with
  | word w =>
    have hw : isWord w = true := by
      have := ht (by rw [hk]; simp)
      rw [hk] at this
      exact this
    dsimp only
    split
    · exact .fail _
    · next hr =>
      refine .pure ?_
      simp only [isName, hw, Bool.true_and]
      simpa using hr
  | _ => exact .fail _

/-! ## expressions -/

variable {k : Nat}

theorem expression_yields (k : Nat) :
    Yields (nested k).expression fun e => e.fits k = true := by
  intro s e s' hs h
  have htaken := ((nested_takes k).expression hs h).1
  refine ⟨?_, htaken.lexical hs⟩
  show e.fits k = true
  rw [Expr.fits, htaken.spelled, htaken.canonical, decide_eq_true htaken.depth_lt]
  rfl

/-- arguments that can be read where `k` levels of nesting are allowed -/
def FittingArgs (k : Nat) (es : List Expr) : Prop :=
  Expr.allSpelled es = true ∧ Expr.allCanonical es = true ∧ Expr.argNesting es ≤ k

theorem arguments_yields (k : Nat) : Yields (arguments (nested k)) (FittingArgs k) := by
  intro s es s' hs h
  have htaken := arguments_taken (nested_takes k) hs h
  obtain ⟨ts, rfl, -⟩ := htaken.spelledBy
  exact ⟨⟨htaken.spelled, htaken.canonical, htaken.nesting⟩, hs.of_ahead⟩

theorem path_yields {name : String} (hname : isName name = true) (loc : Location) :
    Yields (path name loc) fun e => ∃ names, e = .path loc names ∧ isPath names = true := by
  intro s e s' hs h
  obtain ⟨members, ts, rfl, hall, rfl, -⟩ := path_taken hs h
  refine ⟨⟨name :: members, rfl, ?_⟩, hs.of_ahead⟩
  rw [isPath, hname, hall]
  rfl

/-- a first argument that can be read where `k` levels of nesting are allowed -/
def FittingFirst (k : Nat) (e : Expr) : Prop :=
  e.spelled = true ∧ e.canonical = true ∧ e.firstNesting < k

theorem continued_yields {a : Expr} (opening : Location) (ha : a.fits k = true) :
    Yields ((nested k).continued (.paren opening a)) (FittingFirst k) := by
  simp only [Expr.fits, Bool.and_eq_true, decide_eq_true_eq] at ha
  obtain ⟨k, rfl⟩ : ∃ j, k = j + 1 := ⟨k - 1, by omega⟩
  intro s e s' hs h
  -- the parentheses are taken to have been read just here
  have hseed : ∀ {e s'}, (pure (.paren opening a) : Parser Expr) s = .ok (e, s') →
      e.Taken Expr.firstNesting (k + 1) precedence.length
        (ahead ((Expr.paren opening a).tokens.map fun kind => ⟨kind, opening⟩) s) s'
        ∧ s'.Lexical := by
    intro e s' he
    cases he
    refine ⟨⟨⟨_, rfl, ?_⟩, ha.1.1, ha.1.2, Nat.le_refl _, ha.2, ?_, ?_⟩, hs⟩
    · rw [List.map_map]
      have hid : Token.kind ∘ (fun kind => (⟨kind, opening⟩ : Token)) = id := rfl
      rw [hid, List.map_id]
      exact Expr.spelledBy_tokens _
    · intro hopen
      cases hopen
    · rw [size_ahead, List.length_map, Expr.tokens, List.length_cons]
      omega
  have hfactor : Takes (k + 1) precedence.length (factorIn (nested k)) :=
    factorIn_taken (nested_takes k)
  obtain ⟨htaken, -, hs'⟩ := levels_taken (fun _ _ _ _ => rfl) hfactor hseed (Nat.zero_le _) h
  exact ⟨⟨htaken.spelled, htaken.canonical, htaken.depth_lt⟩, hs'⟩

theorem fittingArgs_nil (k : Nat) : FittingArgs k [] := ⟨rfl, rfl, Nat.zero_le k⟩

/-- parentheses as the first argument take no level of their own -/
theorem fittingFirst_paren {a : Expr} (opening : Location) (h : a.fits k = true) :
    FittingFirst k (.paren opening a) := by
  simp only [Expr.fits, Bool.and_eq_true, decide_eq_true_eq] at h
  exact ⟨h.1.1, h.1.2, h.2⟩

theorem fits_of_fittingArgs {a : Expr} {as : List Expr} (h : FittingArgs k (a :: as)) :
    a.fits k = true := by
  obtain ⟨hs, hc, hk⟩ := h
  simp only [Expr.allSpelled, Expr.allCanonical, Expr.argNesting, Bool.and_eq_true] at hs hc hk
  simp only [Expr.fits, hs.1, hc.1, Bool.true_and, decide_eq_true_eq]
  omega

/-! ## calls that are read -/

/-- what holds of every call that can be read: of the statement of a chunk, and of what a line of
code can give where so many levels of nesting are allowed -/
structure OfReadCalls (P : Nat → Expr → Bool) : Prop where
  mono : ∀ k k' e, k ≤ k' → P k e = true → P k' e = true
  chunk : ∀ {k text} (loc : Location), opensCode text.toList = false →
    P k (.call loc (.path loc writePath) [.literal loc (.string text)]) = true
  line : ∀ {k e}, e.acceptedLine k = true → P k e = true

theorem ofReadCalls_accepted : OfReadCalls Expr.accepted where
  mono _ _ _ hk := Expr.accepted_mono hk
  chunk loc h := by
    rw [Expr.accepted, Expr.writesChunk_iff.mpr ⟨_, _, _, _, rfl, h⟩]
    rfl
  line h := by
    rw [Expr.accepted, h]
    exact Bool.or_true _

/-- the statement is well formed and the calls in it have a property -/
def Stmt.Sound (P : Nat → Expr → Bool) (k : Nat) (st : Stmt) : Prop :=
  st.wellFormed k = true ∧ st.everyCall P k = true

def Block.Sound (P : Nat → Expr → Bool) (k : Nat) (b : Block) : Prop :=
  b.wellFormed k = true ∧ b.everyCall P k = true

def FunctionDecl.Sound (P : Nat → Expr → Bool) (k : Nat) (d : FunctionDecl) : Prop :=
  d.wellFormed k = true ∧ d.everyCall P k = true

variable {P : Nat → Expr → Bool}

/-! ## calls and assignments -/

section calls

variable (hP : OfReadCalls P)

include hP

theorem sound_callStatement {names : List String} {args : List Expr} (loc loc' : Location)
    (hnames : isPath names = true) (hs : Expr.allSpelled args = true)
    (hc : Expr.allCanonical args = true) (hk : statementNesting args ≤ k) :
    Stmt.Sound P k (callStatement loc (.path loc' names) args) := by
  refine ⟨rfl, hP.line ?_⟩
  rw [Expr.acceptedLine, hnames, hs, hc, decide_eq_true hk]
  rfl

theorem sound_callStatement_args {names : List String} {args : List Expr} (loc loc' : Location)
    (hnames : isPath names = true) (h : FittingArgs k args) :
    Stmt.Sound P k (callStatement loc (.path loc' names) args) :=
  sound_callStatement hP loc loc' hnames h.1 h.2.1 (Nat.le_trans (statementNesting_le args) h.2.2)

theorem sound_callStatement_first {names : List String} {first : Expr} {args : List Expr}
    (loc loc' : Location) (hnames : isPath names = true) (hf : FittingFirst k first)
    (h : FittingArgs k args) :
    Stmt.Sound P k (callStatement loc (.path loc' names) (first :: args)) := by
  apply sound_callStatement hP loc loc' hnames
  · rw [Expr.allSpelled, hf.1, h.1]
    rfl
  · rw [Expr.allCanonical, hf.2.1, h.2.1]
    rfl
  · have h1 := hf.2.2
    have h2 := h.2.2
    rw [statementNesting]
    omega

section

variable {names : List String} (loc loc' opening : Location) (hnames : isPath names = true)

include hnames

theorem callFromFirst_yields {first : Expr} (hf : FittingFirst k first) :
    Yields (callFromFirst (nested k) loc (.path loc' names) first) (Stmt.Sound P k) := by
  refine .bind (eatSymbol_yields ',') fun b _ => ?_
  split
  · exact .bind (arguments_yields k) fun args h =>
      .pure (sound_callStatement_first hP loc loc' hnames hf h)
  · exact .pure (sound_callStatement_first hP loc loc' hnames hf (fittingArgs_nil k))

theorem callFromSeed_yields {a : Expr} (ha : a.fits k = true) :
    Yields (callFromSeed (nested k) loc (.path loc' names) (.paren opening a))
      (Stmt.Sound P k) := by
  refine .bind (peekIsSymbol_yields ',') fun b _ => ?_
  have hfirst : ∀ first, FittingFirst k first →
      Yields (callFromFirst (nested k) loc (.path loc' names) first) (Stmt.Sound P k) :=
    fun _ hf => callFromFirst_yields hP loc loc' hnames hf
  split
  · exact .bind (.pure (fittingFirst_paren opening ha)) hfirst
  · exact .bind (continued_yields opening ha) hfirst

theorem closedCall_yields {args : List Expr} (h : FittingArgs k args) :
    Yields (closedCall loc opening (.path loc' names) args) (Stmt.Sound P k) := by
  match args, h with
  | [], h => exact .pure (sound_callStatement_args hP loc loc' hnames h)
  | [a], h =>
    exact .pure (sound_callStatement_first hP loc loc' hnames
      (fittingFirst_paren opening (fits_of_fittingArgs h)) (fittingArgs_nil k))
  | a :: b :: as, _ => exact .fail _

theorem afterArguments_yields {args : List Expr} (h : FittingArgs k args) :
    Yields (afterArguments (nested k) loc opening (.path loc' names) args) (Stmt.Sound P k) := by
  refine .bind peek_yields fun t _ => ?_
  split
  · refine .bind next_yields fun _ _ => .bind (expression_yields k) fun value hv => .pure ?_
    refine ⟨?_, rfl⟩
    show (Expr.fitsTarget k (.call loc (.path loc' names) args) && value.fits k) = true
    have hk : (Expr.call loc (.path loc' names) args).nesting ≤ k := by
      rw [Expr.nesting, Expr.nesting, Nat.zero_max]
      exact h.2.2
    rw [hv, Expr.fitsTarget, Expr.spelled, Expr.canonical, Expr.spelled, hnames, h.1, h.2.1,
      decide_eq_true hk]
    rfl
  split
  · exact closedCall_yields hP loc loc' opening hnames h
  split
  · exact callFromSeed_yields hP loc loc' opening hnames (fits_of_fittingArgs h)
  · split
    · exact .fail _
    · exact .fail _

theorem afterPath_yields :
    Yields (afterPath (nested k) loc (.path loc' names)) (Stmt.Sound P k) := by
  refine .bind peek_yields fun t _ => ?_
  split
  · refine .bind next_yields fun _ _ => .bind (expression_yields k) fun value hv => .pure ?_
    refine ⟨?_, rfl⟩
    show (Expr.fitsTarget k (.path loc' names) && value.fits k) = true
    rw [hv, Expr.fitsTarget, Expr.spelled, hnames]
    simp [Expr.isTarget, Expr.canonical, Expr.nesting]
  split
  · refine .bind next_yields fun _ _ => .bind (arguments_yields k) fun args h => ?_
    exact .bind (expectSymbol_yields ')') fun _ _ =>
      afterArguments_yields hP loc loc' t.location hnames h
  · exact .bind (arguments_yields k) fun args h =>
      .pure (sound_callStatement_args hP loc loc' hnames h)

end

theorem assignmentOrCall_yields (k : Nat) :
    Yields (assignmentOrCall (nested k)) (Stmt.Sound P k) := by
  refine .bind (expectName_yields .statement) fun ⟨name, loc⟩ hname => ?_
  refine .bind (path_yields hname loc) fun target ht => ?_
  obtain ⟨names, rfl, hnames⟩ := ht
  exact afterPath_yields hP loc loc hnames

theorem sound_calledStatement {e : Expr} (loc : Location) (h : e.fits k = true) :
    Stmt.Sound P k (calledStatement loc e) := by
  have h' := h
  simp only [Expr.fits, Bool.and_eq_true, decide_eq_true_eq] at h'
  obtain ⟨⟨hs, hc⟩, hk⟩ := h'
  have hline : ∀ {l f args}, (∀ l' names, f = .path l' names → False) →
      (f.isCallable || args.isEmpty) = true → f.canonical = true →
      Expr.allCanonical args = true → (Expr.call l f args).spelled = true →
      (Expr.call l f args).nesting < k → P k (.call l f args) = true := by
    intro l f args hne hcall hf hargs hspelled hnesting
    apply hP.line
    rw [Expr.acceptedLine.eq_2 k l f args hne, hcall, hf, hargs, hspelled,
      decide_eq_true hnesting]
    rfl
  cases e with
  | call l f args =>
    simp only [Expr.canonical, Bool.and_eq_true] at hc
    cases f with
    | path l' names =>
      simp only [Expr.spelled, Expr.nesting, Bool.and_eq_true] at hs hk
      exact sound_callStatement_args hP l l' hs.1 ⟨hs.2, hc.2, by omega⟩
    | _ =>
      refine ⟨rfl, ?_⟩
      exact hline (fun _ _ h => by cases h) (by rw [hc.1.2]; rfl) hc.1.1 hc.2 hs hk
  | path l names =>
    exact sound_callStatement_args hP loc l hs (fittingArgs_nil k)
  | _ =>
    refine ⟨rfl, ?_⟩
    refine hline (fun _ _ h => by cases h) (Bool.or_true _) hc rfl ?_ ?_
    · rw [Expr.spelled, hs]
      rfl
    · rw [Expr.nesting, Expr.argNesting, Nat.max_zero]
      exact hk

theorem explicitCall_yields (k : Nat) : Yields (explicitCall (nested k)) (Stmt.Sound P k) := by
  refine .bind next_yields fun _ _ => .bind peek_yields fun t _ => ?_
  exact .bind (expression_yields k) fun e he => .pure (sound_calledStatement hP t.location he)

end calls

/-! ## declarations -/

theorem anotherName_yields : Yields anotherName fun o => ∀ d ∈ o, isName d.name = true := by
  refine .bind (eatSymbol_yields ',') fun b _ => ?_
  split
  · refine .bind (expectName_yields .variableName) fun ⟨name, loc⟩ hname => .pure ?_
    rintro d ⟨⟩
    exact hname
  · refine .pure ?_
    rintro d ⟨⟩

theorem names_yields : Yields names fun ds => ∀ d ∈ ds, isName d.name = true := by
  refine .bind (expectName_yields .variableName) fun ⟨name, loc⟩ hname => ?_
  refine .bind (.collect anotherName_yields) fun others h => .pure ?_
  exact List.forall_mem_cons.mpr ⟨hname, h⟩

theorem passing_yields : Yields passing fun _ => True := by
  refine .bind (eatKeyword_yields "byref") fun b _ => ?_
  split
  · exact .pure trivial
  refine .bind (eatKeyword_yields "byval") fun b _ => ?_
  split
  · exact .pure trivial
  · exact .pure trivial

theorem param_yields : Yields param fun p => isName p.name = true :=
  .bind passing_yields fun _ _ => .bind (expectName_yields .parameterName) fun _ h => .pure h

theorem listedParam_yields : Yields listedParam fun o => ∀ p ∈ o, isName p.name = true := by
  refine .bind (peekIsSymbol_yields ')') fun b _ => ?_
  split
  · refine .pure ?_
    rintro p ⟨⟩
  refine .bind param_yields fun p hp => .bind (peekIsSymbol_yields ')') fun b _ => ?_
  have hsome : ∀ q ∈ some p, isName q.name = true := by
    rintro q ⟨⟩
    exact hp
  split
  · exact .bind (expectSymbol_yields ',') fun _ _ => .pure hsome
  · exact .pure hsome

theorem params_yields : Yields params fun ps => ∀ p ∈ ps, isName p.name = true := by
  refine .bind (eatSymbol_yields '(') fun b _ => ?_
  split
  · exact .bind (.collect listedParam_yields) fun ps h =>
      .bind (expectSymbol_yields ')') fun _ _ => .pure h
  · refine .pure ?_
    rintro p ⟨⟩

section functions

variable {block : Parser Block} (hblock : Yields block (Block.Sound P k))

include hblock

theorem function_yields (kind : FunctionKind) :
    Yields (function block kind) (FunctionDecl.Sound P k) := by
  refine .bind next_yields fun keyword _ => ?_
  refine .bind (expectName_yields .functionName) fun ⟨name, _⟩ hname => ?_
  refine .bind params_yields fun ps hps => .bind endOfStatement_yields fun _ _ => ?_
  refine .bind hblock fun body hbody => ?_
  refine .bind (expectEnd_yields kind.keyword) fun _ _ => ?_
  refine .bind endOfStatement_yields fun _ _ => .pure ⟨?_, hbody.2⟩
  rw [FunctionDecl.wellFormed, hname, List.all_eq_true.mpr hps, hbody.1]
  rfl

end functions

def SoundMember (P : Nat → Expr → Bool) (k : Nat) : Member → Prop
  | .field decl => isName decl.name = true
  | .method decl => FunctionDecl.Sound P k decl

theorem fields_yields (P : Nat → Expr → Bool) (k : Nat) :
    Yields fields fun ms => ∀ m ∈ ms, SoundMember P k m := by
  refine .bind names_yields fun ds h => .bind endOfStatement_yields fun _ _ => .pure ?_
  intro m hm
  obtain ⟨d, hd, rfl⟩ := List.mem_map.mp hm
  exact h d hd

theorem some_nil_sound (k : Nat) :
    ∀ ms ∈ some ([] : List Member), ∀ m ∈ ms, SoundMember P k m := by
  rintro ms ⟨⟩ m ⟨⟩

section members

variable {block : Parser Block} (hblock : Yields block (Block.Sound P k))

include hblock

theorem method_yields (kind : FunctionKind) :
    Yields (do return some [.method (← function block kind)])
      fun o => ∀ ms ∈ o, ∀ m ∈ ms, SoundMember P k m := by
  refine .bind (function_yields hblock kind) fun d hd => .pure ?_
  rintro ms ⟨⟩
  exact List.forall_mem_singleton.mpr hd

theorem members_yields :
    Yields (members block) fun o => ∀ ms ∈ o, ∀ m ∈ ms, SoundMember P k m := by
  have hfields : Yields (do return some (← fields))
      fun o => ∀ ms ∈ o, ∀ m ∈ ms, SoundMember P k m := by
    refine .bind (fields_yields P k) fun ms h => .pure ?_
    rintro _ ⟨⟩
    exact h
  refine .bind peek_yields fun t _ => ?_
  split
  · exact .bind next_yields fun _ _ => .pure (some_nil_sound k)
  split
  · refine .pure ?_
    rintro ms ⟨⟩
  split
  · exact .bind next_yields fun _ _ => hfields
  split
  · exact method_yields hblock .function
  split
  · exact method_yields hblock .sub
  split
  · refine .bind next_yields fun _ _ => .bind (peekIsKeyword_yields "function") fun b _ => ?_
    refine .bind (peekIsKeyword_yields "sub") fun b _ => ?_
    split
    · exact .pure (some_nil_sound k)
    · exact hfields
  · exact .fail _

theorem classDecl_yields :
    Yields (classDecl block) fun d => d.wellFormed k = true
      ∧ d.everyCall P k = true := by
  refine .bind next_yields fun keyword _ => ?_
  refine .bind (expectName_yields .className) fun ⟨name, _⟩ hname => ?_
  refine .bind endOfStatement_yields fun _ _ => ?_
  refine .bind (.collect (members_yields hblock)) fun ms h => ?_
  refine .bind (expectEnd_yields "class") fun _ _ => .bind endOfStatement_yields fun _ _ => .pure ?_
  have hmem : ∀ m ∈ ms.flatten, SoundMember P k m := by
    intro m hm
    obtain ⟨l, hl, hml⟩ := List.mem_flatten.mp hm
    exact h l hl m hml
  have hfields : ∀ d ∈ ms.flatten.filterMap Member.field?, isName d.name = true := by
    intro d hd
    obtain ⟨m, hm, heq⟩ := List.mem_filterMap.mp hd
    cases m with
    | field decl =>
      cases heq
      exact hmem _ hm
    | method decl => cases heq
  have hmethods : ∀ d ∈ ms.flatten.filterMap Member.method?, FunctionDecl.Sound P k d := by
    intro d hd
    obtain ⟨m, hm, heq⟩ := List.mem_filterMap.mp hd
    cases m with
    | field decl => cases heq
    | method decl =>
      cases heq
      exact hmem _ hm
  constructor
  · rw [ClassDecl.wellFormed, hname, List.all_eq_true.mpr hfields, FunctionDecl.allWellFormed_eq,
      List.all_eq_true.mpr fun d hd => (hmethods d hd).1]
    rfl
  · rw [ClassDecl.everyCall, FunctionDecl.allEveryCall_eq]
    exact List.all_eq_true.mpr fun d hd => (hmethods d hd).2

end members

/-! ## conditions -/

def SoundBranch (P : Nat → Expr → Bool) (k : Nat) (c : Expr) (b : Block) : Prop :=
  c.fits k = true ∧ Block.Sound P k b

theorem sound_chained {chain : List (Location × Expr × Block)} {last : Block}
    (h : ∀ r ∈ chain, SoundBranch P k r.2.1 r.2.2) (hl : last.elseWellFormed k = true)
    (hl' : last.elseEveryCall P k = true) :
    (chained chain last).elseWellFormed k = true
      ∧ (chained chain last).elseEveryCall P k = true := by
  induction chain with
  | nil => exact ⟨hl, hl'⟩
  | cons r chain ih =>
    obtain ⟨loc, c, b⟩ := r
    obtain ⟨⟨hc, hb, hb'⟩, hchain⟩ := List.forall_mem_cons.mp h
    obtain ⟨ih, ih'⟩ := ih hchain
    constructor
    · show Block.elseWellFormed k ⟨loc, [.cond loc c b (chained chain last)]⟩ = true
      rw [Block.elseWellFormed, hc, hb, ih]
      rfl
    · show Block.elseEveryCall P k ⟨loc, [.cond loc c b (chained chain last)]⟩ = true
      rw [Block.elseEveryCall, hb', ih']
      rfl

section conditions

variable (hP : OfReadCalls P) {block : Parser Block} (hblock : Yields block (Block.Sound P k))

include hblock

theorem branch_yields : Yields (branch (nested k) block) fun r => SoundBranch P k r.1 r.2 := by
  refine .bind (expression_yields k) fun c hc => .bind (expectKeyword_yields "then") fun _ _ => ?_
  exact .bind hblock fun b hb => .pure ⟨hc, hb⟩

theorem elseIf_yields :
    Yields (elseIf (nested k) block) fun o => ∀ r ∈ o, SoundBranch P k r.2.1 r.2.2 := by
  refine .bind peek_yields fun t _ => ?_
  split
  · refine .bind next_yields fun _ _ => .bind (branch_yields hblock) fun r hr => .pure ?_
    rintro _ ⟨⟩
    exact hr
  · refine .pure ?_
    rintro _ ⟨⟩

include hP

theorem lastBranch_yields :
    Yields (lastBranch block) fun b => b.elseWellFormed k = true
      ∧ b.elseEveryCall P k = true := by
  refine .bind peek_yields fun t _ => ?_
  split
  · refine .bind next_yields fun _ _ => .bind hblock fun b hb => ?_
    refine .bind (expectEnd_yields "if") fun _ _ => .bind endOfStatement_yields fun _ _ => .pure ?_
    exact ⟨Block.elseWellFormed_of_wellFormed hb.1, Block.elseEveryCall_of_everyCall hP.mono hb.2⟩
  split
  · exact .bind (expectEnd_yields "if") fun _ _ => .bind endOfStatement_yields fun _ _ =>
      .pure ⟨rfl, rfl⟩
  · exact .fail _

theorem condition_yields (loc : Location) :
    Yields (condition (nested k) block loc) (Stmt.Sound P k) := by
  refine .bind (branch_yields hblock) fun ⟨c, b⟩ hb => ?_
  refine .bind (.collect (elseIf_yields hblock)) fun chain hchain => ?_
  refine .bind (lastBranch_yields hP hblock) fun last hlast => .pure ?_
  obtain ⟨hwf, hcalls⟩ := sound_chained hchain hlast.1 hlast.2
  constructor
  · rw [Stmt.wellFormed, hb.1, hb.2.1, hwf]
    rfl
  · rw [Stmt.everyCall, hb.2.2, hcalls]
    rfl

end conditions

/-! ## blocks -/

section chunks

variable (hP : OfReadCalls P)

include hP

/-- the statement of a chunk has the property wherever it stands -/
theorem sound_chunk (loc : Location) {text : String} (h : opensCode text.toList = false) :
    Stmt.Sound P k (writeStatement loc (.literal loc (.string text))) :=
  ⟨rfl, hP.chunk loc h⟩

theorem sound_written (loc : Location) {value : Expr} (h : value.fits k = true) :
    Stmt.Sound P k (writeStatement loc value) := by
  simp only [Expr.fits, Bool.and_eq_true, decide_eq_true_eq] at h
  refine sound_callStatement_args hP loc loc (by decide) ⟨?_, ?_, ?_⟩
  · rw [Expr.allSpelled, h.1.1]
    rfl
  · rw [Expr.allCanonical, h.1.2]
    rfl
  · rw [Expr.argNesting, Expr.argNesting]
    omega

theorem chunkStatements_yields (loc : Location) {text : String}
    (h : opensCode text.toList = false) :
    Yields (chunkStatements (nested k) loc text) fun ss => ∀ st ∈ ss, Stmt.Sound P k st := by
  have hwritten : ∀ st ∈ (if text.isEmpty then []
      else [writeStatement loc (.literal loc (.string text))]), Stmt.Sound P k st := by
    split
    · rintro st ⟨⟩
    · exact List.forall_mem_singleton.mpr (sound_chunk hP loc h)
  refine .bind next_yields fun _ _ => .bind peek_yields fun t _ => ?_
  split
  · refine .bind next_yields fun _ _ => .bind (expression_yields k) fun value hv => ?_
    refine .bind endOfStatement_yields fun _ _ => .pure ?_
    exact List.forall_mem_append.mpr
      ⟨hwritten, List.forall_mem_singleton.mpr (sound_written hP t.location hv)⟩
  · exact .pure hwritten

end chunks

theorem exitKind_yields : Yields exitKind fun _ => True := by
  refine .bind (eatKeyword_yields "function") fun b _ => ?_
  split
  · exact .pure trivial
  refine .bind (eatKeyword_yields "sub") fun b _ => ?_
  split
  · exact .pure trivial
  · exact .bind next_yields fun _ _ => .fail _

/-- what one round of reading a block gives -/
def SoundRound (P : Nat → Expr → Bool) (k : Nat) (o : Option (List Stmt)) : Prop :=
  ∀ ss ∈ o, ∀ st ∈ ss, Stmt.Sound P k st

theorem soundRound_none (k : Nat) : SoundRound P k none := by
  rintro ss ⟨⟩

theorem soundRound_some {ss : List Stmt} (h : ∀ st ∈ ss, Stmt.Sound P k st) :
    SoundRound P k (some ss) := by
  rintro _ ⟨⟩
  exact h

theorem soundRound_single {st : Stmt} (h : Stmt.Sound P k st) : SoundRound P k (some [st]) :=
  soundRound_some (List.forall_mem_singleton.mpr h)

theorem ended_yields {statement : Parser Stmt} (h : Yields statement (Stmt.Sound P k)) :
    Yields (ended statement) (SoundRound P k) :=
  .bind h fun _ hst => .bind endOfStatement_yields fun _ _ => .pure (soundRound_single hst)

section rounds

variable (hP : OfReadCalls P) {block : Parser Block} (hblock : Yields block (Block.Sound P k))

include hP hblock

theorem wordStatements_yields (token : Token) (word : String) :
    Yields (wordStatements (nested k) block token word) (SoundRound P k) := by
  unfold wordStatements
  split
  · exact .pure (soundRound_none k)
  · exact .pure (soundRound_none k)
  · exact .pure (soundRound_none k)
  · exact .bind (function_yields hblock .function) fun d hd =>
      .pure (soundRound_single (show Stmt.Sound P k (.function d) from hd))
  · exact .bind (function_yields hblock .sub) fun d hd =>
      .pure (soundRound_single (show Stmt.Sound P k (.function d) from hd))
  · exact .bind (classDecl_yields hblock) fun d hd =>
      .pure (soundRound_single (show Stmt.Sound P k (.class d) from hd))
  · refine .bind next_yields fun _ _ => .bind names_yields fun ds hds => ?_
    refine .bind endOfStatement_yields fun _ _ => .pure (soundRound_some ?_)
    intro st hst
    obtain ⟨d, hd, rfl⟩ := List.mem_map.mp hst
    exact ⟨hds d hd, rfl⟩
  · refine .bind next_yields fun _ _ => ?_
    exact .bind (condition_yields hP hblock token.location) fun st hst =>
      .pure (soundRound_single hst)
  · refine .bind next_yields fun _ _ => .pure (soundRound_some ?_)
    rintro st ⟨⟩
  · exact ended_yields (explicitCall_yields hP k)
  · exact ended_yields (.bind next_yields fun _ _ => .bind (expectKeyword_yields "explicit")
      fun _ _ => .pure ⟨rfl, rfl⟩)
  · exact ended_yields (.bind next_yields fun _ _ => .bind exitKind_yields fun _ _ =>
      .pure ⟨rfl, rfl⟩)
  · exact ended_yields (assignmentOrCall_yields hP k)

theorem someStatements_yields :
    Yields (someStatements (nested k) block) (SoundRound P k) := by
  refine .bind peek_yields fun t ht => ?_
  split
  · exact .pure (soundRound_none k)
  · refine .bind next_yields fun _ _ => .pure (soundRound_some ?_)
    rintro st ⟨⟩
  · next text hkind =>
    have hproper := ht (by rw [hkind]; simp)
    rw [hkind] at hproper
    have hopen : opensCode text.toList = false := by simpa [TokenKind.lexical] using hproper
    exact .bind (chunkStatements_yields hP t.location hopen) fun ss hss =>
      .pure (soundRound_some hss)
  · exact wordStatements_yields hP hblock t _
  · exact .fail _

end rounds

/-- **A block that has been read is well formed**, and its calls have every property of calls that
can be read. -/
theorem block_sound (hP : OfReadCalls P) (k : Nat) : Yields (block k) (Block.Sound P k) := by
  induction k with
  | zero => exact .bind here_yields fun _ _ => .fail _
  | succ k ih =>
    refine .bind peek_yields fun t _ => ?_
    refine .bind (.collect (someStatements_yields hP ih)) fun lists h => .pure ?_
    have hall : ∀ st ∈ lists.flatten, Stmt.Sound P k st := by
      intro st hst
      obtain ⟨ss, hss, hmem⟩ := List.mem_flatten.mp hst
      exact h ss hss st hmem
    constructor
    · rw [Block.wellFormed, Stmt.allWellFormed_eq]
      exact List.all_eq_true.mpr fun st hst => (hall st hst).1
    · rw [Block.everyCall, Stmt.allEveryCall_eq]
      exact List.all_eq_true.mpr fun st hst => (hall st hst).2

/-- the calls of a block that has been read are accepted -/
theorem block_yields (k : Nat) : Yields (block k) (SoundBlock k) :=
  block_sound ofReadCalls_accepted k

end Parser

end PageScript
