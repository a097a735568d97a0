import PageScript.Proofs.Parser.ReadStatement
import PageScript.Proofs.Parser.SoundBlock

/-!
# Reading statements that start with a path

What the tokens of a statement that starts with a path are read as, up to the end of the statement
(`ReadTo`).  Parentheses behind the path are the hard part: what follows them decides whether they
were an argument list, and whether that stands at all.

An argument `(e) op f` is read by going on behind the parentheses.  What comes of it is the tree in
which `(e)` and the operator stand in front of the leftmost operand of `f` that the operator does
not bind looser than (`Expr.graft`).

* `Expr.canonical_graft`, `Expr.tokens_graft`   the tree is canonical, and has the right tokens;
* `Parser.readTo_assign`, `Parser.readTo_assignList`   assignments;
* `Parser.readTo_list`, `Parser.readTo_opened`   calls whose first argument does not start with
                                               parentheses, and calls where it does;
* `Parser.refused_list`                        several arguments in parentheses, without an
                                               assignment behind them.
-/

namespace PageScript

open TokenStream PageScript.Parser

/-! ## an operand in front of an expression -/

/-- an operand and an operator in front of an expression: together they take the place of the
leftmost operand that the operator does not bind tighter than -/
def Expr.graft (op : BinaryOp) (first : Expr) : Expr → Expr
  | .binary l op' left right =>
    if op'.level ≤ op.level then .binary l op' (Expr.graft op first left) right
    else .binary default op first (.binary l op' left right)
  | e => .binary default op first e

section

variable {op : BinaryOp} {first : Expr}

theorem Expr.graft_of_lt : ∀ {e : Expr}, op.level < e.level →
    Expr.graft op first e = .binary default op first e
  | .binary .., h => if_neg (Nat.not_le.mpr h)
  | .literal .., _ => rfl
  | .path .., _ => rfl
  | .unary .., _ => rfl
  | .call .., _ => rfl
  | .new .., _ => rfl
  | .paren .., _ => rfl

theorem Expr.graft_of_le {l : Location} {op' : BinaryOp} {left right : Expr}
    (h : op'.level ≤ op.level) :
    Expr.graft op first (.binary l op' left right)
      = .binary l op' (Expr.graft op first left) right := if_pos h

/-- an expression binds tighter than an operator, or is an operation that does not -/
theorem Expr.graft_induct (op : BinaryOp) {motive : Expr → Prop}
    (tight : ∀ e, op.level < e.level → motive e)
    (loose : ∀ l op' left right, op'.level ≤ op.level → motive left →
      motive (.binary l op' left right)) : ∀ e, motive e
  | .binary l op' left right =>
    if h : op'.level ≤ op.level then
      loose l op' left right h (Expr.graft_induct op tight loose left)
    else tight _ (Nat.not_le.mp h)
  | .literal .. => tight _ (op_level_lt op)
  | .path .. => tight _ (op_level_lt op)
  | .unary .. => tight _ (op_level_lt op)
  | .call .. => tight _ (op_level_lt op)
  | .new .. => tight _ (op_level_lt op)
  | .paren .. => tight _ (op_level_lt op)

theorem Expr.tokens_graft (e : Expr) :
    (Expr.graft op first e).tokens = first.tokens ++ (op.tokens ++ e.tokens) := by
  induction e using Expr.graft_induct op with
  | tight e h => rw [Expr.graft_of_lt h, Expr.tokens]
  | loose l op' left right h ih =>
    rw [Expr.graft_of_le h, Expr.tokens, ih, Expr.tokens]
    simp

theorem Expr.spelled_graft (e : Expr) :
    (Expr.graft op first e).spelled = (first.spelled && e.spelled) := by
  induction e using Expr.graft_induct op with
  | tight e h => rw [Expr.graft_of_lt h, Expr.spelled]
  | loose l op' left right h ih =>
    rw [Expr.graft_of_le h, Expr.spelled, ih, Expr.spelled, Bool.and_assoc]

theorem Expr.isOpen_graft (e : Expr) : (Expr.graft op first e).isOpen = e.isOpen := by
  induction e using Expr.graft_induct op with
  | tight e h => rw [Expr.graft_of_lt h, Expr.isOpen]
  | loose l op' left right h ih => rw [Expr.graft_of_le h, Expr.isOpen, Expr.isOpen]

theorem Expr.nesting_graft (e : Expr) :
    (Expr.graft op first e).nesting = max first.nesting e.nesting := by
  induction e using Expr.graft_induct op with
  | tight e h => rw [Expr.graft_of_lt h, Expr.nesting]
  | loose l op' left right h ih =>
    rw [Expr.graft_of_le h, Expr.nesting, ih, Expr.nesting, Nat.max_assoc]

theorem Expr.firstNesting_graft (e : Expr) :
    (Expr.graft op first e).firstNesting = max first.firstNesting e.nesting := by
  induction e using Expr.graft_induct op with
  | tight e h => rw [Expr.graft_of_lt h, Expr.firstNesting]
  | loose l op' left right h ih =>
    rw [Expr.graft_of_le h, Expr.firstNesting, ih, Expr.nesting, Nat.max_assoc]

theorem Expr.opening?_graft (e : Expr) : (Expr.graft op first e).opening? = first.opening? := by
  induction e using Expr.graft_induct op with
  | tight e h => rw [Expr.graft_of_lt h, Expr.opening?]
  | loose l op' left right h ih => rw [Expr.graft_of_le h, Expr.opening?, ih]

/-- no operator of the tree binds looser than the loosest of the two that are put together -/
theorem Expr.le_level_graft {n : Nat} {e : Expr} (hop : n ≤ op.level) (he : n ≤ e.level) :
    n ≤ (Expr.graft op first e).level := by
  cases e using Expr.graft_induct op with
  | tight e h =>
    rw [Expr.graft_of_lt h]
    exact hop
  | loose l op' left right h _ =>
    rw [Expr.graft_of_le h]
    exact he

/-- **An operand and an operator in front of a canonical expression make a canonical expression.** -/
theorem Expr.canonical_graft (hfirst : first.canonical = true) (hlevel : op.level ≤ first.level)
    (hopen : first.isOpen = false) {e : Expr} (he : e.canonical = true) :
    (Expr.graft op first e).canonical = true := by
  induction e using Expr.graft_induct op with
  | tight e h =>
    rw [Expr.graft_of_lt h, Expr.canonical, hfirst, he, hopen, decide_eq_true hlevel,
      decide_eq_true h]
    rfl
  | loose l op' left right h ih =>
    simp only [Expr.canonical, Bool.and_eq_true, decide_eq_true_eq, Bool.not_eq_true'] at he
    obtain ⟨⟨hl, hr⟩, ⟨hll, hol⟩, hlr⟩ := he
    have hleft : op'.level ≤ (Expr.graft op first left).level := Expr.le_level_graft h hll
    rw [Expr.graft_of_le h, Expr.canonical, ih hl, hr, Expr.isOpen_graft, hol,
      decide_eq_true hleft, decide_eq_true hlr]
    rfl

/-- parentheses with an operator other than `=` behind them do not clash with a path in front -/
theorem Expr.clashes_graft_paren (hop : op ≠ .eq) (l : Location) (a e : Expr) :
    (Expr.graft op (.paren l a) e).clashes = false := by
  induction e using Expr.graft_induct op with
  | tight e h =>
    rw [Expr.graft_of_lt h]
    exact beq_eq_false_iff_ne.mpr hop
  | loose l' op' left right h ih =>
    rw [Expr.graft_of_le h]
    cases left using Expr.graft_induct op with
    | tight left h' =>
      rw [Expr.graft_of_lt h'] at ih ⊢
      exact ih
    | loose l'' op'' left' right' h' _ =>
      rw [Expr.graft_of_le h'] at ih ⊢
      exact ih

end

namespace Parser

variable {k : Nat} {names : List String} {e e' : Expr} {es : List Expr}

/-! ## arguments that fit -/

theorem spelled_of_fits (h : e.fits k = true) : e.spelled = true := by
  simp only [Expr.fits, Bool.and_eq_true] at h
  exact h.1.1

theorem fittingArgs_of_fits (h : ∀ e ∈ es, e.fits k = true) : FittingArgs k es := by
  induction es with
  | nil => exact fittingArgs_nil k
  | cons e es ih =>
    obtain ⟨hs, hc, hk⟩ := ih fun e' he' => h e' (List.mem_cons_of_mem e he')
    have he := h e List.mem_cons_self
    simp only [Expr.fits, Bool.and_eq_true, decide_eq_true_eq] at he
    refine ⟨?_, ?_, ?_⟩
    · rw [Expr.allSpelled, he.1.1, hs]
      rfl
    · rw [Expr.allCanonical, he.1.2, hc]
      rfl
    · rw [Expr.argNesting]
      exact Nat.max_le.mpr ⟨he.2, hk⟩

theorem FittingArgs.mono {j : Nat} (h : FittingArgs k es) (hk : k ≤ j) : FittingArgs j es :=
  ⟨h.1, h.2.1, Nat.le_trans h.2.2 hk⟩

/-! ## statements up to their end -/

/-- tokens are read as a statement, up to its end, where `k` levels of nesting are allowed -/
def ReadTo (k : Nat) (ks : List TokenKind) (st : Stmt) : Prop :=
  ∀ (ts : List Token) (s : TokenStream) (kind : TokenKind) (blk : Parser Block),
    ts.map Token.kind = ks → s.front = some kind → kind.endsStatement = true →
    ∃ st', st'.bare = st.bare ∧
      someStatements (nested k) blk (ahead ts s)
        = (endOfStatement >>= fun _ => pure (some [st'])) s

theorem ended_of_ok {p : Parser Stmt} {st : Stmt} {s s' : TokenStream} (h : p s = .ok (st, s')) :
    ended p s = (endOfStatement >>= fun _ => pure (some [st])) s' := bind_of_ok h

theorem readTo_path (hnames : isPath names = true) {ks : List TokenKind} {st : Stmt}
    (hdot : ks.head? ≠ some (.symbol '.'))
    (h : ∀ {ts s kind} (loc : Location), ts.map Token.kind = ks → s.front = some kind →
      kind.endsStatement = true → ∃ st', st'.bare = st.bare ∧
        afterPath (nested k) loc (.path loc names) (ahead ts s) = .ok (st', s)) :
    ReadTo k (pathTokens names ++ ks) st := by
  intro ts s kind blk hts hf hend
  obtain ⟨ps, us, rfl, hps, hus⟩ := List.map_eq_append_iff.mp hts
  obtain ⟨kind', hf', hdot'⟩ : ∃ kind', (ahead us s).front = some kind' ∧ kind' ≠ .symbol '.' := by
    cases us with
    | nil =>
      refine ⟨kind, hf, ?_⟩
      rintro rfl
      cases hend
    | cons u us =>
      refine ⟨u.kind, rfl, fun hu => hdot ?_⟩
      rw [← hus, ← hu]
      rfl
  obtain ⟨loc, hpath⟩ := someStatements_path (nested k) blk hnames hps hf' hdot'
  obtain ⟨st', hst', hread⟩ := h loc hus hf hend
  refine ⟨st', hst', ?_⟩
  rw [ahead_append, hpath]
  exact ended_of_ok hread

/-! ## assignments -/

/-- `v = e` -/
theorem readTo_assign (hnames : isPath names = true) (he : e.fits k = true) :
    ReadTo k (pathTokens names ++ .symbol '=' :: e.tokens)
      (.assign default (.path default names) e) := by
  refine readTo_path hnames (by simp) fun {ts s kind} loc hts hf hend => ?_
  obtain ⟨l, value, hvalue, hread⟩ := afterPath_assign_ahead loc (.path loc names) he hts hf hend
  refine ⟨.assign l (.path loc names) value, ?_, hread⟩
  rw [Stmt.bare, Stmt.bare, hvalue]
  rfl

/-- `v(es) = e` -/
theorem readTo_assignList (hnames : isPath names = true) (he : e.fits k = true)
    (hes : FittingArgs k es) :
    ReadTo k (pathTokens names ++ .symbol '(' :: (Expr.argTokens es
        ++ .symbol ')' :: .symbol '=' :: e.tokens))
      (.assign default (.call default (.path default names) es) e) := by
  refine readTo_path hnames (by simp) fun {ts s kind} loc hts hf hend => ?_
  obtain ⟨l, es', value, hes', hvalue, hread⟩ :=
    afterPath_list_assign loc (.path loc names) hes.1 hes.2.1 hes.2.2 he hts hf hend
  refine ⟨.assign l (.call loc (.path loc names) es') value, ?_, hread⟩
  rw [Stmt.bare, Stmt.bare, hvalue, Expr.bare, Expr.bare, hes']
  rfl

/-! ## calls -/

theorem bare_callStatement {loc : Location} {es' : List Expr}
    (h : Expr.bares es' = Expr.bares es) :
    (callStatement loc (.path loc names) es').bare
      = (callStatement default (.path default names) es).bare := by
  rw [callStatement, callStatement, Stmt.bare, Stmt.bare, Expr.bare, Expr.bare, h]
  rfl

/-- an expression that clashes starts with parentheses -/
theorem clashes_of_opening (h : e.opening? = none) : e.clashes = false := by
  cases hclash : e.clashes with
  | false => rfl
  | true =>
    obtain ⟨a, -, -, hopen, -⟩ := Expr.restTokens_of_clashes hclash
    rw [h] at hopen
    cases hopen

theorem readTo_call (hnames : isPath names = true) (hes : FittingArgs k es)
    (hopen : ∀ e ∈ es.head?, e.opening? = none) :
    ReadTo k (pathTokens names ++ Expr.argTokens es)
      (callStatement default (.path default names) es) := by
  have hdot : (Expr.argTokens es).head? ≠ some (.symbol '.') := by
    cases es with
    | nil => exact fun h => nomatch h
    | cons e es =>
      have hs := hes.1
      rw [Expr.allSpelled, Bool.and_eq_true] at hs
      obtain ⟨kind, ks, htokens, hkind, -⟩ := Expr.tokens_head e hs.1
      rw [Expr.argTokens, htokens]
      intro h
      rw [Option.some.inj h] at hkind
      cases hkind
  have hclash : argumentsClash es = false := by
    cases es with
    | nil => rfl
    | cons e es => exact clashes_of_opening (hopen e rfl)
  refine readTo_path hnames hdot fun {ts s kind} loc hts hf hend => ?_
  obtain ⟨es', hes', hread⟩ := afterPath_ahead loc (.path loc names) hes.1 hes.2.1 hclash
    (Nat.le_trans (statementNesting_le es) hes.2.2) hts hf hend
  exact ⟨_, bare_callStatement hes', hread⟩

/-- `v()` -/
theorem readTo_emptyList (hnames : isPath names = true) :
    ReadTo k (pathTokens names ++ [.symbol '(', .symbol ')'])
      (callStatement default (.path default names) []) := by
  refine readTo_path hnames (by simp) fun {ts s kind} loc hts hf hend => ?_
  obtain ⟨t, us, rfl, ht, hus⟩ := List.map_eq_cons_iff.mp hts
  obtain ⟨u, rfl, hu⟩ := List.map_eq_singleton_iff.mp hus
  have hnone : ([] : List Token).map Token.kind = Expr.argTokens [] := rfl
  obtain ⟨es', hes', hlist⟩ :=
    afterPath_list loc (.path loc names) rfl rfl (Nat.zero_le k) ht hnone hu s
  obtain rfl : es' = [] := by
    rw [Expr.bares_eq_map] at hes'
    exact List.map_eq_nil_iff.mp hes'
  refine ⟨callStatement loc (.path loc names) [], bare_callStatement rfl, ?_⟩
  exact hlist.trans (afterArguments_closed hf hend [])

/-- a call of which the first argument starts with parentheses that do not clash -/
theorem readTo_opened {a : Expr} {ks : List TokenKind} (hnames : isPath names = true)
    (hopen : e.opening? = some a) (hclash : e.clashes = false) (he : FittingFirst k e)
    (hes : FittingArgs k es) (hks : IsTail ks es) :
    ReadTo k (pathTokens names ++ (e.tokens ++ ks))
      (callStatement default (.path default names) (e :: es)) := by
  have hdot : (e.tokens ++ ks).head? ≠ some (.symbol '.') := by
    rw [Expr.tokens_of_opening hopen]
    simp
  have hs : Expr.allSpelled (e :: es) = true := by
    rw [Expr.allSpelled, he.1, hes.1]
    rfl
  have hc : Expr.allCanonical (e :: es) = true := by
    rw [Expr.allCanonical, he.2.1, hes.2.1]
    rfl
  have hk : statementNesting (e :: es) ≤ k := Nat.max_le.mpr ⟨he.2.2, hes.2.2⟩
  refine readTo_path hnames hdot fun {ts s kind} loc hts hf hend => ?_
  obtain ⟨us, vs, rfl, hus, hvs⟩ := List.map_eq_append_iff.mp hts
  obtain ⟨es', hes', hread⟩ := afterPath_opened loc (.path loc names) hopen hs hc hclash hk hus
    (hvs ▸ hks) hf hend
  exact ⟨_, bare_callStatement hes', hread⟩

/-! ## arguments in parentheses -/

/-- several arguments in parentheses are refused at the end of the statement and at a comma -/
theorem afterArguments_refused {loc opening : Location} {target : Expr} {args : List Expr}
    {s : TokenStream} {kind : TokenKind} (hargs : 2 ≤ args.length) (hf : s.front = some kind)
    (hkind : kind.endsStatement = true ∨ kind = .symbol ',') :
    afterArguments (nested k) loc opening target args s
      = .error ⟨opening, .parenthesizedSubCall⟩ := by
  match args, hargs with
  | a :: b :: as, _ =>
    rcases hkind with hend | rfl
    · exact afterArguments_closed hf hend (a :: b :: as)
    · obtain ⟨t, ht, hp⟩ := peek_of_front hf
      have hend : t.endsStatement = false := by
        rw [Token.endsStatement, ht]
        rfl
      unfold afterArguments
      rw [lift_bind_of_ok hp, isSymbol_eq_false ht (by simp), hend, isSymbol_iff.mpr ht]
      rfl

/-- `v(es)` with several arguments -/
theorem refused_list (hnames : isPath names = true) (hes : FittingArgs k es)
    (hlen : 2 ≤ es.length) (blk : Parser Block) {ps ts : List Token} {t : Token} {s : TokenStream}
    {kind : TokenKind} (hps : ps.map Token.kind = pathTokens names) (ht : t.kind = .symbol '(')
    (hts : ts.map Token.kind = Expr.argTokens es ++ [.symbol ')']) (hf : s.front = some kind)
    (hkind : kind.endsStatement = true ∨ kind = .symbol ',') :
    someStatements (nested k) blk (ahead (ps ++ t :: ts) s)
      = .error ⟨t.location, .parenthesizedSubCall⟩ := by
  obtain ⟨as, cs, rfl, has, hcs⟩ := List.map_eq_append_iff.mp hts
  obtain ⟨c, rfl, hc⟩ := List.map_eq_singleton_iff.mp hcs
  have hfront : (ahead (t :: (as ++ [c])) s).front = some (.symbol '(') := by rw [← ht]; rfl
  obtain ⟨loc, hpath⟩ := someStatements_path (nested k) blk hnames hps hfront (by simp)
  obtain ⟨es', hes', hlist⟩ :=
    afterPath_list loc (.path loc names) hes.1 hes.2.1 hes.2.2 ht has hc s
  have hlen' : 2 ≤ es'.length := by
    rw [← List.length_map (f := Expr.bare), ← Expr.bares_eq_map, hes', Expr.bares_eq_map,
      List.length_map]
    exact hlen
  rw [ahead_append, hpath]
  exact bind_of_error (hlist.trans (afterArguments_refused hlen' hf hkind))

end Parser

end PageScript
