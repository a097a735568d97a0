import PageScript.Proofs.Parser.ReadExpression
import PageScript.Parser.Statement

/-!
# Reading the tokens of a statement

How the statements that hold no block are read from their tokens.  A call without parentheses is
the hard one: parentheses at the start of its first argument are read as an argument list of the
path, and only what follows them tells.  `Expr.restTokens` is what follows them; an argument that
does not clash is read from there on (`Expr.read_opened`).
-/

namespace PageScript

open TokenStream

/-! ## parentheses at the start of an expression -/

/-- the tokens behind the parentheses with which an expression starts -/
def Expr.restTokens : Expr → List TokenKind
  | .binary _ op left right => left.restTokens ++ (op.tokens ++ right.tokens)
  | .call _ callee args =>
    callee.restTokens ++ (.symbol '(' :: (Expr.argTokens args ++ [.symbol ')']))
  | _ => []

theorem Expr.tokens_of_opening : ∀ {e a : Expr}, e.opening? = some a →
    e.tokens = .symbol '(' :: (a.tokens ++ .symbol ')' :: e.restTokens)
  | .paren _ inner, a, h => by
    obtain rfl := Option.some.inj h
    rfl
  | .binary _ op left right, a, h => by
    rw [Expr.tokens, Expr.tokens_of_opening (e := left) h, Expr.restTokens]
    simp
  | .call _ callee args, a, h => by
    rw [Expr.tokens, Expr.tokens_of_opening (e := callee) h, Expr.restTokens]
    simp

/-- the parentheses at the start hold a smaller expression of the same kind -/
theorem Expr.opening_spelled : ∀ {e a : Expr}, e.opening? = some a → e.spelled = true →
    a.spelled = true
  | .paren _ inner, a, h, hs => by
    obtain rfl := Option.some.inj h
    exact hs
  | .binary _ op left right, a, h, hs => by
    simp only [Expr.spelled, Bool.and_eq_true] at hs
    exact Expr.opening_spelled (e := left) h hs.1
  | .call _ callee args, a, h, hs => by
    simp only [Expr.spelled, Bool.and_eq_true] at hs
    exact Expr.opening_spelled (e := callee) h hs.1

theorem Expr.opening_canonical : ∀ {e a : Expr}, e.opening? = some a → e.canonical = true →
    a.canonical = true
  | .paren _ inner, a, h, hc => by
    obtain rfl := Option.some.inj h
    exact hc
  | .binary _ op left right, a, h, hc => by
    simp only [Expr.canonical, Bool.and_eq_true] at hc
    exact Expr.opening_canonical (e := left) h hc.1.1
  | .call _ callee args, a, h, hc => by
    simp only [Expr.canonical, Bool.and_eq_true] at hc
    exact Expr.opening_canonical (e := callee) h hc.1.1

theorem Expr.opening_nesting : ∀ {e a : Expr}, e.opening? = some a → a.nesting < e.nesting
  | .paren _ inner, a, h => by
    obtain rfl := Option.some.inj h
    exact Nat.lt_succ_self _
  | .binary _ op left right, a, h => by
    have := Expr.opening_nesting (e := left) h
    rw [Expr.nesting]
    omega
  | .call _ callee args, a, h => by
    have := Expr.opening_nesting (e := callee) h
    rw [Expr.nesting]
    omega

theorem Expr.opening_firstNesting : ∀ {e a : Expr}, e.opening? = some a →
    a.nesting ≤ e.firstNesting
  | .paren _ inner, a, h => by
    obtain rfl := Option.some.inj h
    exact Nat.le_refl _
  | .binary _ op left right, a, h => by
    have := Expr.opening_firstNesting (e := left) h
    rw [Expr.firstNesting]
    omega
  | .call l callee args, a, h => Nat.le_of_lt (Expr.opening_nesting (e := .call l callee args) h)

theorem Expr.firstNesting_of_none : ∀ {e : Expr}, e.opening? = none → e.firstNesting = e.nesting
  | .binary _ op left right, h => by
    rw [Expr.firstNesting, Expr.nesting, Expr.firstNesting_of_none (e := left) h]
  | .literal .., _ => rfl
  | .path .., _ => rfl
  | .unary .., _ => rfl
  | .call .., _ => rfl
  | .new .., _ => rfl

/-! ## clashes -/

/-- calls behind parentheses at the start of a statement's argument clash -/
theorem Expr.clashes_of_call : ∀ {l : Location} {f a : Expr} {as : List Expr},
    f.opening? = some a → (Expr.call l f as).canonical = true → (Expr.call l f as).clashes = true
  | _, .paren .., _, _, _, _ => rfl
  | _, .call l' f as', a, as, h, hc => by
    simp only [Expr.canonical, Bool.and_eq_true] at hc
    have hf : (Expr.call l' f as').canonical = true := by
      simp only [Expr.canonical, Bool.and_eq_true]
      exact hc.1.1
    exact Expr.clashes_of_call (l := l') h hf
  | _, .binary .., _, _, _, hc => by
    simp [Expr.canonical, Expr.isCallable] at hc

/-- an expression that starts with parentheses and does not clash goes on with an operator other
than `=`, if it goes on -/
theorem Expr.restTokens_of_not_clashes : ∀ {e a : Expr}, e.opening? = some a →
    e.canonical = true → e.clashes = false →
    (∃ l, e = .paren l a) ∨ ∃ op ks, op ≠ BinaryOp.eq ∧ e.restTokens = op.tokens ++ ks
  | .paren l inner, a, h, _, _ => by
    obtain rfl := Option.some.inj h
    exact .inl ⟨l, rfl⟩
  | .call l f as, a, h, hc, hclash => by
    rw [Expr.clashes_of_call (f := f) h hc] at hclash
    cases hclash
  | .binary _ op left right, a, h, hc, hclash => by
    simp only [Expr.canonical, Bool.and_eq_true] at hc
    right
    cases left with
    | paren l' inner =>
      refine ⟨op, right.tokens, ?_, rfl⟩
      rintro rfl
      cases hclash
    | binary l' op' left' right' =>
      obtain ⟨l'', heq⟩ | ⟨op'', ks, hop, hks⟩ :=
        Expr.restTokens_of_not_clashes (e := .binary l' op' left' right') h hc.1.1 hclash
      · cases heq
      · exact ⟨op'', ks ++ (op.tokens ++ right.tokens), hop, by
          rw [Expr.restTokens, hks, List.append_assoc]⟩
    | call l' f as =>
      rw [show (Expr.binary _ op (.call l' f as) right).clashes = (Expr.call l' f as).clashes
        from rfl, Expr.clashes_of_call (f := f) h hc.1.1] at hclash
      cases hclash
    | _ => cases h

/-- an expression that clashes goes on behind its parentheses with `=` or an argument list -/
theorem Expr.restTokens_of_clashes : ∀ {e : Expr}, e.clashes = true →
    ∃ a kind ks, e.opening? = some a ∧ e.restTokens = kind :: ks
      ∧ (kind = .symbol '=' ∨ kind = .symbol '(')
  | .binary _ op (.paren l a) right, h => by
    have hop : op = .eq := by simpa [Expr.clashes] using h
    subst hop
    exact ⟨a, .symbol '=', right.tokens, rfl, rfl, .inl rfl⟩
  | .binary _ op (.binary l' op' left' right') right, h => by
    obtain ⟨a, kind, ks, hopen, hks, hkind⟩ :=
      Expr.restTokens_of_clashes (e := .binary l' op' left' right') h
    exact ⟨a, kind, ks ++ (op.tokens ++ right.tokens), hopen, by rw [Expr.restTokens, hks]; rfl,
      hkind⟩
  | .binary _ op (.call l' f as) right, h => by
    obtain ⟨a, kind, ks, hopen, hks, hkind⟩ :=
      Expr.restTokens_of_clashes (e := .call l' f as) h
    exact ⟨a, kind, ks ++ (op.tokens ++ right.tokens), hopen, by rw [Expr.restTokens, hks]; rfl,
      hkind⟩
  | .call _ (.paren l a) as, _ =>
    ⟨a, .symbol '(', Expr.argTokens as ++ [.symbol ')'], rfl, rfl, .inr rfl⟩
  | .call _ (.call l' f as') as, h => by
    obtain ⟨a, kind, ks, hopen, hks, hkind⟩ :=
      Expr.restTokens_of_clashes (e := .call l' f as') h
    exact ⟨a, kind, _, hopen, by rw [Expr.restTokens, hks]; rfl, hkind⟩
  | .call _ (.binary l' op' left' right') as, h => by
    obtain ⟨a, kind, ks, hopen, hks, hkind⟩ :=
      Expr.restTokens_of_clashes (e := .binary l' op' left' right') h
    exact ⟨a, kind, _, hopen, by rw [Expr.restTokens, hks]; rfl, hkind⟩

open PageScript.Parser

/-- **An argument is read on behind the parentheses at its start.** -/
theorem Expr.read_opened : ∀ {e a : Expr} {k : Nat}, e.opening? = some a → e.spelled = true →
    e.canonical = true → e.firstNesting ≤ k → e.clashes = false → ∀ {seed : Expr},
    seed.bare = .paren default a.bare → ∀ {n ts s}, n ≤ e.level →
    ts.map Token.kind = e.restTokens → s.Stops (precedence.drop (e.level + 1)) →
    (e.isOpen = true → s.Stops precedence) →
    ∃ e', e'.bare = e.bare ∧
      levels (precedence.drop n) (pure seed) (factorIn (nested k)) (ahead ts s)
        = levels (precedence.drop n) (pure e') (factorIn (nested k)) s
  | .paren l inner, a, k, h, _, _, _, _, seed, hseed, n, ts, s, _, hts, _, _ => by
    obtain rfl := Option.some.inj h
    obtain rfl := List.map_eq_nil_iff.mp hts
    exact ⟨seed, hseed, rfl⟩
  | .call l f as, a, k, h, _, hc, _, hclash, _, _, _, _, _, _, _, _, _ => by
    rw [Expr.clashes_of_call (f := f) h hc] at hclash
    cases hclash
  | .binary l op left right, a, k, h, hs, hc, hk, hclash, seed, hseed, n, ts, s, hn, hts, hstops,
      hopen => by
    simp only [Expr.spelled, Expr.canonical, Expr.firstNesting, Bool.and_eq_true,
      decide_eq_true_eq, Bool.not_eq_true', Nat.max_le] at hs hc hk
    obtain ⟨⟨hcl, hcr⟩, ⟨hll, hol⟩, hlr⟩ := hc
    have hclash' : left.clashes = false := by
      cases left with
      | paren => rfl
      | _ => exact hclash
    obtain ⟨us, vs, rfl, hus, hvs⟩ := List.map_eq_append_iff.mp hts
    obtain ⟨os, ws, rfl, hos, hws⟩ := List.map_eq_append_iff.mp hvs
    rw [ahead_append, ahead_append]
    -- the left operand, up to the operator
    have hleft : (ahead os (ahead ws s)).Stops (precedence.drop (left.level + 1)) :=
      (stops_ahead_tokens op hos (ahead ws s)).drop (by omega)
    have hn' : n ≤ op.level := hn
    obtain ⟨left', hl', hreadl⟩ := Expr.read_opened (e := left) (n := n) h hs.1 hcl hk.1 hclash'
      hseed (by omega) hus hleft (by rw [hol]; intro h; cases h)
    obtain ⟨loc, right', hr', hstep⟩ :=
      (Expr.read right hs.2 hcr hk.2).operation hs.2 hlr hn' hos hws hstops hopen
    refine ⟨.binary loc op left' right', ?_, hreadl.trans (hstep left')⟩
    rw [Expr.bare, Expr.bare, hl', hr']

namespace Parser

variable {s : TokenStream} {k : Nat} {loc : Location} {target : Expr}

/-! ## calls without parentheses -/

/-- the end of a statement stops every expression in it -/
theorem stops_of_endsStatement {kind : TokenKind} (hf : s.front = some kind)
    (hend : kind.endsStatement = true) : s.Stops precedence := by
  refine ⟨kind, hf, TokenKind.stops_of_endsArguments ?_⟩
  rw [TokenKind.endsArguments, hend]
  rfl

theorem isSymbol_eq_false {t : Token} {kind : TokenKind} {c : Char} (ht : t.kind = kind)
    (hk : kind ≠ .symbol c) : t.isSymbol c = false := by
  rw [Token.isSymbol, ht]
  exact beq_eq_false_iff_ne.mpr hk

/-- the tokens of the arguments behind the first one: a comma and the arguments; without arguments
the comma may be absent -/
def IsTail (ks : List TokenKind) (es : List Expr) : Prop :=
  (ks = [] ∧ es = []) ∨ ks = .symbol ',' :: Expr.argTokens es

theorem isTail_moreTokens (es : List Expr) : IsTail (Expr.moreTokens es) es := by
  cases es with
  | nil => exact .inl ⟨rfl, rfl⟩
  | cons e es => exact .inr rfl

theorem stops_isTail {es : List Expr} {ts : List Token} {kind : TokenKind}
    (hts : IsTail (ts.map Token.kind) es) (hf : s.front = some kind)
    (hend : kind.endsStatement = true) : (ahead ts s).Stops precedence := by
  rcases hts with ⟨hts, -⟩ | hts
  · obtain rfl := List.map_eq_nil_iff.mp hts
    exact stops_of_endsStatement hf hend
  · obtain ⟨t, ts, rfl, ht, -⟩ := List.map_eq_cons_iff.mp hts
    exact ⟨.symbol ',', by rw [← ht]; rfl, rfl⟩

theorem callFromFirst_ahead (loc : Location) (target first : Expr) {es : List Expr}
    {ts : List Token} {kind : TokenKind}
    (hs : Expr.allSpelled es = true) (hc : Expr.allCanonical es = true)
    (hk : Expr.argNesting es ≤ k) (hts : IsTail (ts.map Token.kind) es)
    (hf : s.front = some kind) (hend : kind.endsStatement = true) :
    ∃ es', Expr.bares es' = Expr.bares es ∧
      callFromFirst (nested k) loc target first (ahead ts s)
        = .ok (callStatement loc target (first :: es'), s) := by
  have hargs : kind.endsArguments = true := by rw [TokenKind.endsArguments, hend]; rfl
  unfold callFromFirst
  rcases hts with ⟨hts, rfl⟩ | hts
  · obtain rfl := List.map_eq_nil_iff.mp hts
    have hcomma : kind ≠ .symbol ',' := by
      rintro rfl
      cases hend
    refine ⟨[], rfl, ?_⟩
    rw [ahead_nil, lift_bind_of_ok (eatSymbol_of_front hf hcomma)]
    rfl
  · obtain ⟨t, us, rfl, ht, hus⟩ := List.map_eq_cons_iff.mp hts
    obtain ⟨es', hes', hread⟩ := arguments_ahead hs (Expr.reads_args es hs hc hk) hus hf hargs
    refine ⟨es', hes', ?_⟩
    rw [ahead_cons, lift_bind_of_ok (eatSymbol_report ht _)]
    exact (bind_of_ok hread).trans rfl

theorem callFromSeed_comma {inner : Nested Parser} {t : Token} (ht : t.kind = .symbol ',')
    (seed : Expr) (s : TokenStream) :
    callFromSeed inner loc target seed (s.report (.ok t))
      = callFromFirst inner loc target seed (s.report (.ok t)) := by
  have hp := peekIsSymbol_of_front (front_report t s) ','
  rw [ht, beq_self_eq_true] at hp
  unfold callFromSeed
  rw [lift_bind_of_ok hp]
  rfl

theorem callFromSeed_continued {inner : Nested Parser} {kind : TokenKind} (hf : s.front = some kind)
    (hk : kind ≠ .symbol ',') (seed : Expr) :
    callFromSeed inner loc target seed s
      = (inner.continued seed >>= callFromFirst inner loc target) s := by
  have hp := peekIsSymbol_of_front hf ','
  rw [beq_eq_false_iff_ne.mpr hk] at hp
  unfold callFromSeed
  rw [lift_bind_of_ok hp]
  rfl

/-! ## behind a path -/

theorem afterPath_assign {inner : Nested Parser} {t : Token} (ht : t.kind = .symbol '=')
    (s : TokenStream) :
    afterPath inner loc target (s.report (.ok t))
      = (inner.expression >>= fun value => pure (.assign t.location target value)) s := by
  unfold afterPath
  rw [lift_bind_of_ok (peek_report t s), isSymbol_iff.mpr ht]
  rfl

theorem afterPath_paren {inner : Nested Parser} {t u : Token} {args : List Expr} {s' : TokenStream}
    (ht : t.kind = .symbol '(') (hargs : arguments inner s = .ok (args, s'.report (.ok u)))
    (hu : u.kind = .symbol ')') :
    afterPath inner loc target (s.report (.ok t))
      = afterArguments inner loc t.location target args s' := by
  unfold afterPath
  rw [lift_bind_of_ok (peek_report t s), isSymbol_eq_false ht (by simp), isSymbol_iff.mpr ht]
  show (arguments inner >>= fun args => expectSymbol ')' >>= fun _ =>
    afterArguments inner loc t.location target args) s = _
  rw [bind_of_ok hargs, bind_of_ok (expectSymbol_report hu s')]

theorem afterPath_arguments {inner : Nested Parser} {kind : TokenKind} (hf : s.front = some kind)
    (heq : kind ≠ .symbol '=') (hparen : kind ≠ .symbol '(') :
    afterPath inner loc target s
      = (arguments inner >>= fun args => pure (callStatement loc target args)) s := by
  obtain ⟨t, rfl, hp⟩ := peek_of_front hf
  unfold afterPath
  rw [lift_bind_of_ok hp, isSymbol_eq_false rfl heq, isSymbol_eq_false rfl hparen]
  rfl

theorem afterArguments_assign {inner : Nested Parser} {opening : Location} {args : List Expr}
    {t : Token} (ht : t.kind = .symbol '=') (s : TokenStream) :
    afterArguments inner loc opening target args (s.report (.ok t))
      = (inner.expression >>= fun value =>
          pure (.assign t.location (.call loc target args) value)) s := by
  unfold afterArguments
  rw [lift_bind_of_ok (peek_report t s), isSymbol_iff.mpr ht]
  rfl

theorem afterArguments_closed {inner : Nested Parser} {opening : Location} {kind : TokenKind}
    (hf : s.front = some kind) (hk : kind.endsStatement = true) (args : List Expr) :
    afterArguments inner loc opening target args s = closedCall loc opening target args s := by
  obtain ⟨t, rfl, hp⟩ := peek_of_front hf
  have heq : t.kind ≠ .symbol '=' := by
    intro h
    rw [h] at hk
    cases hk
  have hend : t.endsStatement = true := hk
  unfold afterArguments
  rw [lift_bind_of_ok hp, isSymbol_eq_false rfl heq, hend]
  rfl

theorem afterArguments_seed {inner : Nested Parser} {opening : Location} {kind : TokenKind}
    (hf : s.front = some kind) (heq : kind ≠ .symbol '=') (hend : kind.endsStatement = false)
    (arg : Expr) :
    afterArguments inner loc opening target [arg] s
      = callFromSeed inner loc target (.paren opening arg) s := by
  obtain ⟨t, rfl, hp⟩ := peek_of_front hf
  have hend' : t.endsStatement = false := hend
  unfold afterArguments
  rw [lift_bind_of_ok hp, isSymbol_eq_false rfl heq, hend']
  rfl

theorem afterArguments_ahead {opening : Location} {e a a' : Expr} {es : List Expr}
    {ts us : List Token} {kind : TokenKind} (hopen : e.opening? = some a) (ha' : a'.bare = a.bare)
    (hs : Expr.allSpelled (e :: es) = true) (hc : Expr.allCanonical (e :: es) = true)
    (hclash : e.clashes = false) (hk : statementNesting (e :: es) ≤ k)
    (hts : ts.map Token.kind = e.restTokens) (hus : IsTail (us.map Token.kind) es)
    (hf : s.front = some kind) (hend : kind.endsStatement = true) :
    ∃ es', Expr.bares es' = Expr.bares (e :: es) ∧
      afterArguments (nested k) loc opening target [a'] (ahead ts (ahead us s))
        = .ok (callStatement loc target es', s) := by
  simp only [Expr.allSpelled, Expr.allCanonical, statementNesting, Bool.and_eq_true, Nat.max_le]
    at hs hc hk
  obtain ⟨k, rfl⟩ : ∃ j, k = j + 1 := ⟨k - 1, by omega⟩
  have hseed : (Expr.paren opening a').bare = .paren default a.bare := by rw [Expr.bare, ha']
  obtain ⟨l, rfl⟩ | ⟨op, ks, hop, hrest⟩ := Expr.restTokens_of_not_clashes hopen hc.1 hclash
  · -- the first argument is the parentheses themselves
    obtain rfl := List.map_eq_nil_iff.mp hts
    rcases hus with ⟨hus, rfl⟩ | hcomma
    · obtain rfl := List.map_eq_nil_iff.mp hus
      refine ⟨[.paren opening a'], ?_, ?_⟩
      · rw [Expr.bares, Expr.bares, hseed]
        rfl
      · rw [ahead_nil, ahead_nil, afterArguments_closed hf hend]
        rfl
    · obtain ⟨es', hes', hread⟩ :=
        callFromFirst_ahead loc target (.paren opening a') hs.2 hc.2 hk.2 (.inr hcomma) hf hend
      obtain ⟨t, us, rfl, ht, -⟩ := List.map_eq_cons_iff.mp hcomma
      refine ⟨.paren opening a' :: es', ?_, ?_⟩
      · rw [Expr.bares, Expr.bares, hseed, hes']
        rfl
      · have hcomma : (ahead (t :: us) s).front = some (.symbol ',') := by rw [← ht]; rfl
        rw [ahead_nil, afterArguments_seed hcomma (by simp) rfl, ahead_cons,
          callFromSeed_comma ht]
        exact hread
  · -- an operator follows the parentheses
    have hhead : ∀ kind' ∈ op.tokens.head?, kind' ≠ .symbol '=' ∧ kind'.endsStatement = false
        ∧ kind' ≠ .symbol ',' := by
      revert hop
      cases op <;> decide
    obtain ⟨kind', ks', htok⟩ := List.exists_cons_of_ne_nil (tokens_ne_nil op)
    rw [htok] at hhead
    obtain ⟨heq, hnend, hncomma⟩ := hhead kind' rfl
    have hfront : (ahead ts (ahead us s)).front = some kind' := by
      rw [hrest, htok] at hts
      obtain ⟨t, ts, rfl, ht, -⟩ := List.map_eq_cons_iff.mp hts
      rw [← ht]
      rfl
    have hstops : (ahead us s).Stops precedence := stops_isTail hus hf hend
    obtain ⟨e', he', hreade⟩ := Expr.read_opened (n := 0) hopen hs.1 hc.1 (k := k) (by omega) hclash
      hseed (Nat.zero_le _) hts (hstops.mono (List.drop_subset _ _)) fun _ => hstops
    have hcont : (nested (k + 1)).continued (.paren opening a') (ahead ts (ahead us s))
        = .ok (e', ahead us s) := hreade.trans (levels_of_stops hstops e')
    obtain ⟨es', hes', hread⟩ := callFromFirst_ahead loc target e' hs.2 hc.2 hk.2 hus hf hend
    refine ⟨e' :: es', ?_, ?_⟩
    · rw [Expr.bares, Expr.bares, he', hes']
    · rw [afterArguments_seed hfront heq hnend, callFromSeed_continued hfront hncomma,
        bind_of_ok hcont]
      exact hread

/-- parentheses behind a path are read as an argument list -/
theorem afterPath_list (loc : Location) (target : Expr) {es : List Expr} {t u : Token}
    {us : List Token} (hs : Expr.allSpelled es = true) (hc : Expr.allCanonical es = true)
    (hk : Expr.argNesting es ≤ k) (ht : t.kind = .symbol '(')
    (hus : us.map Token.kind = Expr.argTokens es) (hu : u.kind = .symbol ')') (s : TokenStream) :
    ∃ es', Expr.bares es' = Expr.bares es ∧
      afterPath (nested k) loc target (ahead (t :: (us ++ [u])) s)
        = afterArguments (nested k) loc t.location target es' s := by
  have hclose : (ahead [u] s).front = some (.symbol ')') := by rw [← hu]; rfl
  obtain ⟨es', hes', hargs⟩ := arguments_ahead hs (Expr.reads_args es hs hc hk) hus hclose rfl
  refine ⟨es', hes', ?_⟩
  rw [ahead_cons, ahead_append]
  exact afterPath_paren ht hargs hu

theorem afterPath_opening (loc : Location) (target : Expr) {a : Expr} {t u : Token}
    {us : List Token} (hs : a.spelled = true) (hc : a.canonical = true) (hk : a.nesting < k)
    (ht : t.kind = .symbol '(') (hus : us.map Token.kind = a.tokens) (hu : u.kind = .symbol ')')
    (s : TokenStream) :
    ∃ a', a'.bare = a.bare ∧
      afterPath (nested k) loc target (ahead (t :: (us ++ [u])) s)
        = afterArguments (nested k) loc t.location target [a'] s := by
  have hspelled : Expr.allSpelled [a] = true := by rw [Expr.allSpelled, hs]; rfl
  have hcanonical : Expr.allCanonical [a] = true := by rw [Expr.allCanonical, hc]; rfl
  have hnesting : Expr.argNesting [a] ≤ k := by
    rw [Expr.argNesting, Expr.argNesting]
    omega
  have htokens : us.map Token.kind = Expr.argTokens [a] := by
    rw [hus, Expr.argTokens, Expr.moreTokens, List.append_nil]
  obtain ⟨as', has', hread⟩ := afterPath_list loc target hspelled hcanonical hnesting ht htokens hu s
  obtain ⟨a', rfl, ha'⟩ : ∃ a', as' = [a'] ∧ a'.bare = a.bare := by
    rw [Expr.bares_eq_map, Expr.bares_eq_map] at has'
    obtain ⟨a', ha', hbare⟩ := List.map_eq_singleton_iff.mp has'
    exact ⟨a', ha', hbare⟩
  exact ⟨a', ha', hread⟩

theorem afterPath_opened (loc : Location) (target : Expr) {e a : Expr} {es : List Expr}
    {ts us : List Token} {kind : TokenKind} (hopen : e.opening? = some a)
    (hs : Expr.allSpelled (e :: es) = true) (hc : Expr.allCanonical (e :: es) = true)
    (hclash : e.clashes = false) (hk : statementNesting (e :: es) ≤ k)
    (hts : ts.map Token.kind = e.tokens) (hus : IsTail (us.map Token.kind) es)
    (hf : s.front = some kind) (hend : kind.endsStatement = true) :
    ∃ es', Expr.bares es' = Expr.bares (e :: es) ∧
      afterPath (nested k) loc target (ahead (ts ++ us) s)
        = .ok (callStatement loc target es', s) := by
  have hs' := hs
  have hc' := hc
  have hk' := hk
  simp only [Expr.allSpelled, Expr.allCanonical, statementNesting, Bool.and_eq_true, Nat.max_le]
    at hs' hc' hk'
  rw [Expr.tokens_of_opening hopen] at hts
  obtain ⟨t, ts, rfl, ht, hts⟩ := List.map_eq_cons_iff.mp hts
  obtain ⟨as, ws, rfl, has, hws⟩ := List.map_eq_append_iff.mp hts
  obtain ⟨u, ws, rfl, hu, hrest⟩ := List.map_eq_cons_iff.mp hws
  have hnesting : a.nesting < k := by
    have := Expr.opening_firstNesting hopen
    omega
  obtain ⟨a', ha', hopened⟩ := afterPath_opening loc target
    (Expr.opening_spelled hopen hs'.1) (Expr.opening_canonical hopen hc'.1) hnesting ht has hu
    (ahead ws (ahead us s))
  obtain ⟨es', hes', hread⟩ := afterArguments_ahead hopen ha' hs hc hclash hk hrest hus hf hend
  refine ⟨es', hes', ?_⟩
  rw [← hread, ← hopened, ← ahead_append, ← ahead_append]
  simp

/-- **A call without parentheses is read back behind its path**, if its first argument does not
clash with the path. -/
theorem afterPath_ahead (loc : Location) (target : Expr) {es : List Expr} {ts : List Token}
    {kind : TokenKind} (hs : Expr.allSpelled es = true) (hc : Expr.allCanonical es = true)
    (hclash : argumentsClash es = false) (hk : statementNesting es ≤ k)
    (hts : ts.map Token.kind = Expr.argTokens es) (hf : s.front = some kind)
    (hend : kind.endsStatement = true) :
    ∃ es', Expr.bares es' = Expr.bares es ∧
      afterPath (nested k) loc target (ahead ts s) = .ok (callStatement loc target es', s) := by
  have hargs : kind.endsArguments = true := by rw [TokenKind.endsArguments, hend]; rfl
  cases es with
  | nil =>
    obtain rfl := List.map_eq_nil_iff.mp hts
    have hne : ∀ c, c ≠ ':' → kind ≠ .symbol c := by
      rintro c hc rfl
      exact hc (beq_iff_eq.mp hend)
    refine ⟨[], rfl, ?_⟩
    rw [ahead_nil, afterPath_arguments hf (hne '=' (by decide)) (hne '(' (by decide)),
      bind_of_ok (arguments_of_front hf hargs)]
    rfl
  | cons e es =>
    obtain ⟨us, vs, rfl, hus, hvs⟩ := List.map_eq_append_iff.mp hts
    cases hopen : e.opening? with
    | none =>
      have hnesting : Expr.argNesting (e :: es) ≤ k := by
        rwa [statementNesting, Expr.firstNesting_of_none hopen] at hk
      have hs' := hs
      rw [Expr.allSpelled, Bool.and_eq_true] at hs'
      obtain ⟨es', hes', hread⟩ := arguments_ahead hs (Expr.reads_args (e :: es) hs hc hnesting)
        hts hf hargs
      obtain ⟨kind', hf', hk', hparen⟩ := Expr.front_ahead hs'.1 hus (ahead vs s)
      rw [← ahead_append] at hf'
      have heq : kind' ≠ .symbol '=' := by
        rintro rfl
        cases hk'
      refine ⟨es', hes', ?_⟩
      rw [afterPath_arguments hf' heq (hparen hopen), bind_of_ok hread]
      rfl
    | some a =>
      exact afterPath_opened loc target hopen hs hc hclash hk hus
        (hvs ▸ isTail_moreTokens es) hf hend

/-! ## whole statements -/

variable {inner : Nested Parser} {blk : Parser Block}

theorem someStatements_word {t : Token} {w : String} (ht : t.kind = .word w) (s : TokenStream) :
    someStatements inner blk (s.report (.ok t))
      = wordStatements inner blk t w (s.report (.ok t)) := by
  unfold someStatements
  rw [lift_bind_of_ok (peek_report t s)]
  simp only [ht]

theorem someStatements_colon {t : Token} (ht : t.kind = .symbol ':') (s : TokenStream) :
    someStatements inner blk (s.report (.ok t)) = .ok (some [], s) := by
  unfold someStatements
  rw [lift_bind_of_ok (peek_report t s)]
  simp only [ht]
  rfl

/-- a word that is not reserved starts an assignment or a call -/
theorem wordStatements_name {t : Token} {w : String} (hw : isReserved w = false) :
    wordStatements inner blk t w = ended (assignmentOrCall inner) := by
  have hne : ∀ v ∈ reservedWords, Text.fold w ≠ v := by
    rintro v hv rfl
    rw [isReserved, List.contains_iff_mem.mpr hv] at hw
    cases hw
  unfold wordStatements
  split
  case h_13 => rfl
  -- the other cases are the reserved words
  all_goals
    next h => exact absurd h (hne _ (by decide))

theorem ended_report {p : Parser Stmt} {st : Stmt} {t : Token} (ht : t.kind = .symbol ':')
    {s' : TokenStream} (h : p s = .ok (st, s'.report (.ok t))) :
    ended p s = .ok (some [st], s') := by
  unfold ended
  rw [bind_of_ok h, lift_bind_of_ok (endOfStatement_report ht s')]
  rfl

theorem someStatements_path (inner : Nested Parser) (blk : Parser Block) {names : List String}
    {ts : List Token} {kind : TokenKind} (hnames : isPath names = true)
    (hts : ts.map Token.kind = pathTokens names) (hf : s.front = some kind)
    (hdot : kind ≠ .symbol '.') :
    ∃ loc, someStatements inner blk (ahead ts s)
      = ended (afterPath inner loc (.path loc names)) s := by
  cases names with
  | nil => cases hnames
  | cons name members =>
    simp only [isPath, isName, Bool.and_eq_true, Bool.not_eq_true'] at hnames
    obtain ⟨t, us, rfl, ht, hus⟩ := List.map_eq_cons_iff.mp hts
    have hpath : assignmentOrCall inner ((ahead us s).report (.ok t))
        = afterPath inner t.location (.path t.location (name :: members)) s := by
      unfold assignmentOrCall
      rw [lift_bind_of_ok (expectName_report ht hnames.1.2 .statement (ahead us s))]
      exact bind_of_ok (path_ahead name t.location hus hf hdot)
    refine ⟨t.location, ?_⟩
    rw [ahead_cons, someStatements_word ht, wordStatements_name hnames.1.2]
    exact bind_congr_left hpath

theorem reads_of_fits {e : Expr} (h : e.fits k = true) : Reads (nested k).expression e := by
  simp only [Expr.fits, Bool.and_eq_true, decide_eq_true_eq] at h
  obtain ⟨k, rfl⟩ : ∃ j, k = j + 1 := ⟨k - 1, by omega⟩
  exact (Expr.read e h.1.1 h.1.2 (by omega)).reads

theorem stops_colon {t : Token} (ht : t.kind = .symbol ':') (s : TokenStream) :
    (s.report (.ok t)).Stops precedence := ⟨t.kind, rfl, by rw [ht]; rfl⟩

/-! ## assignments -/

theorem afterPath_assign_ahead (loc : Location) (target : Expr) {value : Expr}
    (hv : value.fits k = true) {ts : List Token} {kind : TokenKind}
    (hts : ts.map Token.kind = .symbol '=' :: value.tokens) (hf : s.front = some kind)
    (hend : kind.endsStatement = true) :
    ∃ l value', value'.bare = value.bare ∧
      afterPath (nested k) loc target (ahead ts s) = .ok (.assign l target value', s) := by
  obtain ⟨t, vs, rfl, ht, hvs⟩ := List.map_eq_cons_iff.mp hts
  obtain ⟨value', hv', hread⟩ := reads_of_fits hv hvs (stops_of_endsStatement hf hend)
  refine ⟨t.location, value', hv', ?_⟩
  rw [ahead_cons, afterPath_assign ht]
  exact (bind_of_ok hread).trans rfl

theorem afterPath_list_assign (loc : Location) (target : Expr) {value : Expr} {es : List Expr}
    (hs : Expr.allSpelled es = true) (hc : Expr.allCanonical es = true)
    (hk : Expr.argNesting es ≤ k) (hv : value.fits k = true) {ts : List Token} {kind : TokenKind}
    (hts : ts.map Token.kind = .symbol '(' :: (Expr.argTokens es
      ++ .symbol ')' :: .symbol '=' :: value.tokens)) (hf : s.front = some kind)
    (hend : kind.endsStatement = true) :
    ∃ l es' value', Expr.bares es' = Expr.bares es ∧ value'.bare = value.bare ∧
      afterPath (nested k) loc target (ahead ts s)
        = .ok (.assign l (.call loc target es') value', s) := by
  obtain ⟨o, os, rfl, ho, hos⟩ := List.map_eq_cons_iff.mp hts
  obtain ⟨as, os, rfl, has, hos⟩ := List.map_eq_append_iff.mp hos
  obtain ⟨c, os, rfl, hclose, hos⟩ := List.map_eq_cons_iff.mp hos
  obtain ⟨t, vs, rfl, ht, hvs⟩ := List.map_eq_cons_iff.mp hos
  obtain ⟨es', hes', hlist⟩ :=
    afterPath_list loc target hs hc hk ho has hclose (ahead (t :: vs) s)
  obtain ⟨value', hv', hread⟩ := reads_of_fits hv hvs (stops_of_endsStatement hf hend)
  refine ⟨t.location, es', value', hes', hv', ?_⟩
  have hsplit : o :: (as ++ c :: t :: vs) = (o :: (as ++ [c])) ++ (t :: vs) := by simp
  rw [hsplit, ahead_append, hlist, ahead_cons, afterArguments_assign ht]
  exact (bind_of_ok hread).trans rfl

theorem read_assign {l : Location} {target value : Expr} (ht : target.fitsTarget k = true)
    (hv : value.fits k = true) {ts : List Token}
    (hts : ts.map Token.kind = (Stmt.assign l target value).tokens) (s : TokenStream) :
    ∃ st, st.bare = (Stmt.assign l target value).bare ∧
      someStatements (nested k) blk (ahead ts s) = .ok (some [st], s) := by
  simp only [Expr.fitsTarget, Bool.and_eq_true, decide_eq_true_eq] at ht
  obtain ⟨⟨⟨htarget, hs⟩, hc⟩, hk⟩ := ht
  obtain ⟨us, vs, rfl, hus, hvs⟩ := List.map_eq_append_iff.mp hts
  obtain ⟨vs, ws, rfl, hvalue, hws⟩ := List.map_eq_append_iff.mp
    (show vs.map Token.kind = (.symbol '=' :: value.tokens) ++ [.symbol ':'] from hvs)
  obtain ⟨u, rfl, hu⟩ := List.map_eq_singleton_iff.mp hws
  have hf : (ahead [u] s).front = some (.symbol ':') := by rw [← hu]; rfl
  rw [ahead_append, ahead_append]
  cases target with
  | path l' names =>
    have heq : (ahead vs (ahead [u] s)).front = some (.symbol '=') := by
      obtain ⟨t, vs, rfl, ht, -⟩ := List.map_eq_cons_iff.mp hvalue
      rw [← ht]
      rfl
    obtain ⟨loc, hpath⟩ := someStatements_path (nested k) blk hs hus heq (by simp)
    obtain ⟨l₁, value', hv', hread⟩ :=
      afterPath_assign_ahead loc (.path loc names) hv hvalue hf rfl
    refine ⟨.assign l₁ (.path loc names) value', ?_, ?_⟩
    · rw [Stmt.bare, Stmt.bare, hv']
      rfl
    · rw [hpath]
      exact ended_report hu hread
  | call l' f args =>
    cases f with
    | path l₂ names =>
      simp only [Expr.spelled, Expr.canonical, Expr.nesting, Bool.and_eq_true, Nat.max_le]
        at hs hc hk
      obtain ⟨ps, os, rfl, hps, hos⟩ := List.map_eq_append_iff.mp hus
      have hlist : (os ++ vs).map Token.kind = .symbol '(' :: (Expr.argTokens args
          ++ .symbol ')' :: .symbol '=' :: value.tokens) := by
        rw [List.map_append, hos, hvalue]
        simp
      have hopen : (ahead os (ahead vs (ahead [u] s))).front = some (.symbol '(') := by
        obtain ⟨o, os, rfl, ho, -⟩ := List.map_eq_cons_iff.mp hos
        rw [← ho]
        rfl
      obtain ⟨loc, hpath⟩ := someStatements_path (nested k) blk hs.1 hps hopen (by simp)
      obtain ⟨l₁, args', value', hbares, hv', hread⟩ :=
        afterPath_list_assign loc (.path loc names) hs.2 hc.2 hk.2 hv hlist hf rfl
      refine ⟨.assign l₁ (.call loc (.path loc names) args') value', ?_, ?_⟩
      · rw [Stmt.bare, Stmt.bare, hv', Expr.bare, Expr.bare, hbares]
        rfl
      · rw [ahead_append, hpath, ← ahead_append os]
        exact ended_report hu hread
    | _ => cases htarget
  | _ => cases htarget

/-! ## calls -/

theorem someStatements_pathCall (inner : Nested Parser) (blk : Parser Block) {names : List String}
    {args : List Expr} {ts : List Token} {u : Token} (hnames : isPath names = true)
    (hs : Expr.allSpelled args = true)
    (hts : ts.map Token.kind = pathTokens names ++ Expr.argTokens args) (hu : u.kind = .symbol ':')
    (s : TokenStream) :
    ∃ loc ps as, ts = ps ++ as ∧ as.map Token.kind = Expr.argTokens args ∧
      someStatements inner blk (ahead ts (s.report (.ok u)))
        = ended (afterPath inner loc (.path loc names)) (ahead as (s.report (.ok u))) := by
  obtain ⟨ps, as, rfl, hps, has⟩ := List.map_eq_append_iff.mp hts
  obtain ⟨kind, hfront, hdot⟩ : ∃ kind, (ahead as (s.report (.ok u))).front = some kind
      ∧ kind ≠ .symbol '.' := by
    cases args with
    | nil =>
      obtain rfl := List.map_eq_nil_iff.mp has
      exact ⟨.symbol ':', by rw [← hu]; rfl, by simp⟩
    | cons e es =>
      simp only [Expr.allSpelled, Bool.and_eq_true] at hs
      obtain ⟨us, vs, rfl, hus, -⟩ := List.map_eq_append_iff.mp has
      obtain ⟨kind, hkind, hstart, -⟩ := Expr.front_ahead hs.1 hus (ahead vs (s.report (.ok u)))
      refine ⟨kind, by rw [ahead_append]; exact hkind, ?_⟩
      rintro rfl
      cases hstart
  obtain ⟨loc, hpath⟩ := someStatements_path inner blk hnames hps hfront hdot
  exact ⟨loc, ps, as, rfl, has, by rw [ahead_append, hpath]⟩

theorem read_pathCall {l l' : Location} {names : List String} {args : List Expr}
    (h : (Expr.call l (.path l' names) args).printsLine k = true) {ts : List Token} {u : Token}
    (hts : ts.map Token.kind = pathTokens names ++ Expr.argTokens args) (hu : u.kind = .symbol ':')
    (s : TokenStream) :
    ∃ st, st.bare = .expr default (Expr.call l (.path l' names) args).bare ∧
      someStatements (nested k) blk (ahead ts (s.report (.ok u))) = .ok (some [st], s) := by
  simp only [Expr.printsLine, Bool.and_eq_true, Bool.not_eq_true', decide_eq_true_eq] at h
  obtain ⟨⟨⟨⟨hnames, hs⟩, hc⟩, hclash⟩, hk⟩ := h
  have hf : (s.report (.ok u)).front = some (.symbol ':') := by rw [← hu]; rfl
  obtain ⟨loc, ps, as, -, has, hpath⟩ := someStatements_pathCall (nested k) blk hnames hs hts hu s
  obtain ⟨args', hargs, hread⟩ := afterPath_ahead loc (.path loc names) hs hc hclash hk has hf rfl
  refine ⟨callStatement loc (.path loc names) args', ?_, ?_⟩
  · rw [callStatement, Stmt.bare, Expr.bare, Expr.bare, hargs]
    rfl
  · rw [hpath]
    exact ended_report hu hread

theorem wordStatements_call (t : Token) :
    wordStatements inner blk t "call" = ended (explicitCall inner) := rfl

theorem explicitCall_report (inner : Nested Parser) (t : Token) {kind : TokenKind}
    (hf : s.front = some kind) :
    ∃ loc, explicitCall inner (s.report (.ok t))
      = (inner.expression >>= fun e => pure (calledStatement loc e)) s := by
  obtain ⟨u, -, hp⟩ := peek_of_front hf
  refine ⟨u.location, ?_⟩
  unfold explicitCall
  rw [lift_bind_of_ok (next_report t s), lift_bind_of_ok hp]

theorem read_explicitCall {l : Location} {f : Expr} {args : List Expr}
    (h : (Expr.call l f args).fits k = true) {ts : List Token} {u : Token}
    (hts : ts.map Token.kind = .word "call" :: (Expr.call l f args).tokens)
    (hu : u.kind = .symbol ':') (s : TokenStream) :
    ∃ st, st.bare = .expr default (Expr.call l f args).bare ∧
      someStatements (nested k) blk (ahead ts (s.report (.ok u))) = .ok (some [st], s) := by
  obtain ⟨t, us, rfl, ht, hus⟩ := List.map_eq_cons_iff.mp hts
  obtain ⟨e', he', hread⟩ := reads_of_fits h hus (stops_colon hu s)
  have hs : (Expr.call l f args).spelled = true := by
    simp only [Expr.fits, Bool.and_eq_true] at h
    exact h.1.1
  obtain ⟨kind, hfront, -⟩ := Expr.front_ahead hs hus (s.report (.ok u))
  obtain ⟨loc, hcall⟩ := explicitCall_report (nested k) t hfront
  refine ⟨.expr loc e', by rw [Stmt.bare, he'], ?_⟩
  rw [ahead_cons, someStatements_word ht, wordStatements_call]
  apply ended_report hu
  rw [hcall, bind_of_ok hread]
  -- what has been read is a call
  cases e' with
  | call => rfl
  | _ => cases he'

/-! ## declarations -/

theorem names_report {t u : Token} {name : String} (hname : isName name = true)
    (ht : t.kind = .word name) (hu : u.kind = .symbol ':') (s : TokenStream) :
    (names : Parser (List Dim)) ((s.report (.ok u)).report (.ok t))
      = .ok ([⟨t.location, name⟩], s.report (.ok u)) := by
  simp only [isName, Bool.and_eq_true, Bool.not_eq_true'] at hname
  have hnone : anotherName (s.report (.ok u)) = .ok (none, s.report (.ok u)) := by
    have hf : (s.report (.ok u)).front = some (.symbol ':') := by rw [← hu]; rfl
    unfold anotherName
    rw [bind_of_ok (eatSymbol_of_front hf (by simp))]
    rfl
  unfold names
  rw [lift_bind_of_ok (expectName_report ht hname.2 .variableName _)]
  exact (bind_of_ok (collect_of_none hnone)).trans rfl

theorem read_dim {decl : Dim} (h : isName decl.name = true) {ts : List Token}
    (hts : ts.map Token.kind = (Stmt.dim decl).tokens) (s : TokenStream) :
    ∃ st, st.bare = (Stmt.dim decl).bare ∧
      someStatements inner blk (ahead ts s) = .ok (some [st], s) := by
  obtain ⟨t, us, rfl, ht, hus⟩ := List.map_eq_cons_iff.mp hts
  obtain ⟨u, vs, rfl, hu, hvs⟩ := List.map_eq_cons_iff.mp hus
  obtain ⟨v, rfl, hv⟩ := List.map_eq_singleton_iff.mp hvs
  refine ⟨.dim ⟨u.location, decl.name⟩, rfl, ?_⟩
  rw [ahead_cons, someStatements_word ht]
  show (next >>= fun _ => names >>= fun ds => endOfStatement >>= fun _ =>
    pure (some (ds.map Stmt.dim))) _ = _
  rw [bind_of_ok (next_report t _)]
  exact (bind_of_ok (names_report h hu hv s)).trans (bind_of_ok (endOfStatement_report hv s))

theorem read_optionExplicit {l : Location} {ts : List Token}
    (hts : ts.map Token.kind = (Stmt.optionExplicit l).tokens) (s : TokenStream) :
    ∃ st, st.bare = (Stmt.optionExplicit l).bare ∧
      someStatements inner blk (ahead ts s) = .ok (some [st], s) := by
  obtain ⟨t, us, rfl, ht, hus⟩ := List.map_eq_cons_iff.mp hts
  obtain ⟨u, vs, rfl, hu, hvs⟩ := List.map_eq_cons_iff.mp hus
  obtain ⟨v, rfl, hv⟩ := List.map_eq_singleton_iff.mp hvs
  refine ⟨.optionExplicit t.location, rfl, ?_⟩
  rw [ahead_cons, someStatements_word ht]
  apply ended_report hv
  rw [lift_bind_of_ok (next_report t _)]
  exact (bind_of_ok (expectKeyword_report hu (Text.sameWord_refl _) _)).trans rfl

theorem read_exit {l : Location} {kind : FunctionKind} {ts : List Token}
    (hts : ts.map Token.kind = (Stmt.exit l kind).tokens) (s : TokenStream) :
    ∃ st, st.bare = (Stmt.exit l kind).bare ∧
      someStatements inner blk (ahead ts s) = .ok (some [st], s) := by
  obtain ⟨t, us, rfl, ht, hus⟩ := List.map_eq_cons_iff.mp hts
  obtain ⟨u, vs, rfl, hu, hvs⟩ := List.map_eq_cons_iff.mp hus
  obtain ⟨v, rfl, hv⟩ := List.map_eq_singleton_iff.mp hvs
  have hkind : exitKind ((s.report (.ok v)).report (.ok u)) = .ok (kind, s.report (.ok v)) := by
    unfold exitKind
    cases kind with
    | function =>
      have hword : u.kind = .word "function" := hu
      rw [bind_of_ok (eatKeyword_report hword (Text.sameWord_refl _) _)]
      rfl
    | sub =>
      have hf : ((s.report (.ok v)).report (.ok u)).front = some (.word "sub") := by
        rw [front_report, hu]
        rfl
      rw [bind_of_ok (eatKeyword_of_front hf (by decide))]
      exact (bind_of_ok (eatKeyword_report hu (Text.sameWord_refl _) _)).trans rfl
  refine ⟨.exit t.location kind, rfl, ?_⟩
  rw [ahead_cons, someStatements_word ht]
  apply ended_report hv
  rw [lift_bind_of_ok (next_report t _)]
  exact (bind_of_ok hkind).trans rfl

theorem someStatements_chunk {t u : Token} {text : String} (ht : t.kind = .chunk text)
    (htext : text.isEmpty = false) (hu : u.kind = .symbol ':') (s : TokenStream) :
    someStatements inner blk ((s.report (.ok u)).report (.ok t))
      = .ok (some [writeStatement t.location (.literal t.location (.string text))],
          s.report (.ok u)) := by
  unfold someStatements
  rw [lift_bind_of_ok (peek_report t _)]
  simp only [ht]
  have hchunk : chunkStatements inner t.location text ((s.report (.ok u)).report (.ok t))
      = .ok ([writeStatement t.location (.literal t.location (.string text))],
          s.report (.ok u)) := by
    unfold chunkStatements
    rw [lift_bind_of_ok (next_report t _), lift_bind_of_ok (peek_report u s),
      isSymbol_eq_false hu (by simp), htext]
    rfl
  exact (bind_of_ok hchunk).trans rfl

/-! ## the head of a function -/

theorem param_ahead {p : Param} (h : isName p.name = true) {ts : List Token}
    (hts : ts.map Token.kind = p.tokens) (s : TokenStream) :
    ∃ p', p'.bare = p.bare ∧ param (ahead ts s) = .ok (p', s) := by
  obtain ⟨l, name, byRef⟩ := p
  simp only [isName, Bool.and_eq_true, Bool.not_eq_true'] at h
  unfold param
  match byRef, hts with
  | none, hts =>
    obtain ⟨t, rfl, ht⟩ := List.map_eq_singleton_iff.mp hts
    have hf : (s.report (.ok t)).front = some (.word name) := by rw [← ht]; rfl
    have hpassing : passing (s.report (.ok t)) = .ok (none, s.report (.ok t)) := by
      unfold passing
      rw [bind_of_ok (eatKeyword_of_front hf
        (sameWord_eq_false h.2 (show isReserved "byref" = true by decide)))]
      exact (bind_of_ok (eatKeyword_of_front hf
        (sameWord_eq_false h.2 (show isReserved "byval" = true by decide)))).trans rfl
    refine ⟨⟨t.location, name, none⟩, rfl, ?_⟩
    rw [ahead_cons, ahead_nil, bind_of_ok hpassing]
    exact (bind_of_ok (expectName_report ht h.2 .parameterName s)).trans rfl
  | some true, hts =>
    obtain ⟨t, us, rfl, ht, hus⟩ := List.map_eq_cons_iff.mp hts
    obtain ⟨u, rfl, hu⟩ := List.map_eq_singleton_iff.mp hus
    have hpassing :
        passing ((s.report (.ok u)).report (.ok t)) = .ok (some true, s.report (.ok u)) := by
      unfold passing
      rw [bind_of_ok (eatKeyword_report ht (Text.sameWord_refl _) _)]
      rfl
    refine ⟨⟨u.location, name, some true⟩, rfl, ?_⟩
    rw [ahead_cons, ahead_cons, ahead_nil, bind_of_ok hpassing]
    exact (bind_of_ok (expectName_report hu h.2 .parameterName s)).trans rfl
  | some false, hts =>
    obtain ⟨t, us, rfl, ht, hus⟩ := List.map_eq_cons_iff.mp hts
    obtain ⟨u, rfl, hu⟩ := List.map_eq_singleton_iff.mp hus
    have hf : ((s.report (.ok u)).report (.ok t)).front = some (.word "byval") := by
      rw [front_report, ht]
    have hpassing :
        passing ((s.report (.ok u)).report (.ok t)) = .ok (some false, s.report (.ok u)) := by
      unfold passing
      rw [bind_of_ok (eatKeyword_of_front hf (by decide))]
      exact (bind_of_ok (eatKeyword_report ht (Text.sameWord_refl _) _)).trans rfl
    refine ⟨⟨u.location, name, some false⟩, rfl, ?_⟩
    rw [ahead_cons, ahead_cons, ahead_nil, bind_of_ok hpassing]
    exact (bind_of_ok (expectName_report hu h.2 .parameterName s)).trans rfl

theorem Param.tokens_head (p : Param) : ∃ w ks, p.tokens = .word w :: ks := by
  unfold Param.tokens
  split
  · exact ⟨_, _, rfl⟩
  · exact ⟨_, _, rfl⟩
  · exact ⟨_, _, rfl⟩

theorem listedParam_ahead {p : Param} (h : isName p.name = true) {ts : List Token}
    (hts : ts.map Token.kind = p.tokens) (s : TokenStream) :
    ∃ p', p'.bare = p.bare ∧ listedParam (ahead ts s) = (peekIsSymbol ')' >>= fun closes =>
      if !closes then expectSymbol ',' >>= fun _ => pure (some p') else pure (some p')) s := by
  obtain ⟨p', hp', hread⟩ := param_ahead h hts s
  refine ⟨p', hp', ?_⟩
  have hf : ∃ w, (ahead ts s).front = some (.word w) := by
    obtain ⟨w, ks, htokens⟩ := Param.tokens_head p
    rw [htokens] at hts
    obtain ⟨t, us, rfl, ht, -⟩ := List.map_eq_cons_iff.mp hts
    exact ⟨w, by rw [← ht]; rfl⟩
  obtain ⟨w, hf⟩ := hf
  have hpeek := peekIsSymbol_of_front hf ')'
  unfold listedParam
  rw [bind_of_ok hpeek]
  exact bind_of_ok hread

theorem params_ahead {ps : List Param} (h : ps.all (fun p => isName p.name) = true)
    {ts : List Token} (hts : ts.map Token.kind = paramTokens ps)
    (hf : s.front = some (.symbol ')')) :
    ∃ ps', ps'.map Param.bare = ps.map Param.bare ∧
      collect listedParam (ahead ts s) = .ok (ps', s) := by
  have hclose : collect listedParam s = .ok ([], s) := by
    apply collect_of_none
    unfold listedParam
    rw [bind_of_ok (peekIsSymbol_of_front hf ')')]
    rfl
  induction ps generalizing ts with
  | nil =>
    obtain rfl := List.map_eq_nil_iff.mp hts
    exact ⟨[], rfl, hclose⟩
  | cons p ps ih =>
    simp only [List.all_cons, Bool.and_eq_true] at h
    obtain ⟨us, vs, rfl, hus, hvs⟩ := List.map_eq_append_iff.mp hts
    obtain ⟨p', hp', hread⟩ := listedParam_ahead h.1 hus (ahead vs s)
    have hus0 : 0 < us.length := by
      obtain ⟨w, ks, htokens⟩ := Param.tokens_head p
      rw [← List.length_map, hus, htokens]
      exact Nat.succ_pos _
    rw [ahead_append]
    cases ps with
    | nil =>
      obtain rfl := List.map_eq_nil_iff.mp hvs
      rw [ahead_nil] at hread ⊢
      rw [bind_of_ok (peekIsSymbol_of_front hf ')')] at hread
      refine ⟨[p'], by rw [List.map_singleton, List.map_singleton, hp'], ?_⟩
      have hsize : s.size < (ahead us s).size := by
        rw [size_ahead]
        omega
      rw [collect_of_some hread hsize]
      exact map_of_ok _ hclose
    | cons q qs =>
      have hvs' : vs.map Token.kind = .symbol ',' :: paramTokens (q :: qs) := by
        rw [hvs, paramTokens, List.flatMap_cons]
        rfl
      obtain ⟨t, vs, rfl, ht, hqs⟩ := List.map_eq_cons_iff.mp hvs'
      obtain ⟨ps', hps', hreads⟩ := ih h.2 hqs
      have hcomma : (ahead (t :: vs) s).front = some (.symbol ',') := by rw [← ht]; rfl
      rw [bind_of_ok (peekIsSymbol_of_front hcomma ')')] at hread
      have hread' : listedParam (ahead us (ahead (t :: vs) s)) = .ok (some p', ahead vs s) :=
        hread.trans ((bind_of_ok (expectSymbol_report ht (ahead vs s))).trans rfl)
      refine ⟨p' :: ps', by rw [List.map_cons, List.map_cons, hp', hps'], ?_⟩
      have hsize : (ahead vs s).size < (ahead us (ahead (t :: vs) s)).size := by
        rw [size_ahead us, ahead_cons, size_report]
        omega
      rw [collect_of_some hread' hsize]
      exact map_of_ok _ hreads

theorem function_ahead (blk : Parser Block) (kind : FunctionKind) {name : String} {ps : List Param}
    (hname : isName name = true) (hps : ps.all (fun p => isName p.name) = true) {ts : List Token}
    (hts : ts.map Token.kind = headTokens kind name ps) (s : TokenStream) :
    ∃ loc ps', ps'.map Param.bare = ps.map Param.bare ∧
      function blk kind (ahead ts s) = (blk >>= fun body => expectEnd kind.keyword >>= fun _ =>
        endOfStatement >>= fun _ => pure ⟨loc, kind, name, ps', body⟩) s := by
  simp only [isName, Bool.and_eq_true, Bool.not_eq_true'] at hname
  obtain ⟨t, us, rfl, ht, hus⟩ := List.map_eq_cons_iff.mp hts
  obtain ⟨u, vs, rfl, hu, hvs⟩ := List.map_eq_cons_iff.mp hus
  obtain ⟨o, ws, rfl, ho, hws⟩ := List.map_eq_cons_iff.mp hvs
  obtain ⟨ws, cs, rfl, hparams, hcs⟩ := List.map_eq_append_iff.mp hws
  obtain ⟨c, es, rfl, hc, hes⟩ := List.map_eq_cons_iff.mp hcs
  obtain ⟨e, rfl, he⟩ := List.map_eq_singleton_iff.mp hes
  have hf : (ahead [c, e] s).front = some (.symbol ')') := by rw [← hc]; rfl
  obtain ⟨ps', hps', hread⟩ := params_ahead hps hparams hf
  have hparams' : (params : Parser (List Param)) ((ahead ws (ahead [c, e] s)).report (.ok o))
      = .ok (ps', s.report (.ok e)) := by
    unfold params
    rw [lift_bind_of_ok (eatSymbol_report ho _)]
    show (collect listedParam >>= fun ps => expectSymbol ')' >>= fun _ => pure ps) _ = _
    rw [bind_of_ok hread]
    exact (bind_of_ok (expectSymbol_report hc _)).trans rfl
  refine ⟨t.location, ps', hps', ?_⟩
  rw [ahead_cons, ahead_cons, ahead_cons, ahead_append]
  unfold function
  rw [lift_bind_of_ok (next_report t _),
    lift_bind_of_ok (expectName_report hu hname.2 .functionName _)]
  exact (bind_of_ok hparams').trans (bind_of_ok (endOfStatement_report he s))

end Parser

end PageScript
