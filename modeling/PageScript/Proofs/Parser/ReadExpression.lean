import PageScript.Proofs.Parser.Operators

/-!
# Reading the tokens of an expression

The tokens of a canonical expression, in front of a stream that stops it, are read as that
expression (`Expr.read`), provided that the levels of nesting inside it are allowed.

A path, a literal, parentheses and a call may be followed by argument lists, so what is read of
them is said about the calls that come behind (`Expr.Read.callee`); an operation may be followed by
looser operators, so what is read of it is said about the levels on which these stand
(`Expr.Read.level`).
-/

namespace PageScript

open TokenStream

/-! ## first tokens -/

/-- an expression starts with a token that an operand can start with, which is a parenthesis only
where the expression starts with parentheses -/
theorem Expr.tokens_head : ∀ e : Expr, e.spelled = true →
    ∃ kind ks, e.tokens = kind :: ks ∧ kind.startsOperand = true
      ∧ (e.opening? = none → kind ≠ .symbol '(')
  | .literal _ (.integer n), _ => ⟨.integer n, _, rfl, rfl, by simp⟩
  | .literal _ (.string s), _ => ⟨.string s, _, rfl, rfl, by simp⟩
  | .literal _ (.boolean true), _ => ⟨.word "true", _, rfl, rfl, by simp⟩
  | .literal _ (.boolean false), _ => ⟨.word "false", _, rfl, rfl, by simp⟩
  | .path _ [], h => by cases h
  | .path _ (name :: members), _ => ⟨.word name, _, rfl, rfl, by simp⟩
  | .binary _ op l r, h => by
    simp only [Expr.spelled, Bool.and_eq_true] at h
    obtain ⟨kind, ks, htokens, hk⟩ := Expr.tokens_head l h.1
    exact ⟨kind, ks ++ (op.tokens ++ r.tokens), by rw [Expr.tokens, htokens]; rfl, hk⟩
  | .unary _ .neg a, _ => ⟨.symbol '-', _, rfl, rfl, by simp⟩
  | .unary _ .not a, _ => ⟨.word "not", _, rfl, rfl, by simp⟩
  | .call _ f as, h => by
    simp only [Expr.spelled, Bool.and_eq_true] at h
    obtain ⟨kind, ks, htokens, hk⟩ := Expr.tokens_head f h.1
    exact ⟨kind, _, by rw [Expr.tokens, htokens]; rfl, hk⟩
  | .new _ c, _ => ⟨.word "new", _, rfl, rfl, by simp⟩
  | .paren _ a, _ => ⟨.symbol '(', _, rfl, rfl, by simp [Expr.opening?]⟩

theorem Expr.front_ahead {e : Expr} (h : e.spelled = true) {ts : List Token}
    (hts : ts.map Token.kind = e.tokens) (s : TokenStream) :
    ∃ kind, (ahead ts s).front = some kind ∧ kind.startsOperand = true
      ∧ (e.opening? = none → kind ≠ .symbol '(') := by
  obtain ⟨kind, ks, htokens, hk⟩ := Expr.tokens_head e h
  rw [htokens] at hts
  obtain ⟨t, us, rfl, rfl, -⟩ := List.map_eq_cons_iff.mp hts
  exact ⟨t.kind, rfl, hk⟩

/-- the token ends the arguments of a call -/
def TokenKind.endsArguments (kind : TokenKind) : Bool :=
  kind.endsStatement || kind == .symbol ')'

theorem TokenKind.stops_of_endsArguments {kind : TokenKind} (h : kind.endsArguments = true) :
    kind.stops precedence = true := by
  cases kind with
  | symbol c =>
    rw [TokenKind.endsArguments, Bool.or_eq_true] at h
    simp only [TokenKind.endsStatement, beq_iff_eq, TokenKind.symbol.injEq] at h
    obtain rfl | rfl := h
    · decide
    · decide
  | chunk text => rfl
  | endOfInput => rfl
  | _ => cases h

theorem TokenKind.not_endsArguments_of_startsOperand {kind : TokenKind}
    (h : kind.startsOperand = true) : kind.endsArguments = false := by
  cases kind with
  | symbol c =>
    simp only [TokenKind.startsOperand, Bool.or_eq_true, beq_iff_eq] at h
    rcases h with rfl | rfl <;> rfl
  | chunk text => cases h
  | endOfInput => cases h
  | _ => rfl

namespace Parser

variable {s s' : TokenStream} {inner : Nested Parser}

/-! ## paths -/

theorem member_report {t u : Token} {w : String} (ht : t.kind = .symbol '.')
    (hu : u.kind = .word w) (s : TokenStream) :
    member ((s.report (.ok u)).report (.ok t)) = .ok (some w, s) := by
  unfold member
  rw [bind_of_ok (eatSymbol_report ht _)]
  show (expectMember >>= fun m => pure (some m)) _ = _
  rw [bind_of_ok (expectMember_report hu s)]
  rfl

theorem member_of_front {kind : TokenKind} (hf : s.front = some kind) (hk : kind ≠ .symbol '.') :
    member s = .ok (none, s) := by
  unfold member
  rw [bind_of_ok (eatSymbol_of_front hf hk)]
  rfl

theorem collect_member {members : List String} {ts : List Token}
    (hts : ts.map Token.kind = members.flatMap fun m => [.symbol '.', .word m]) {kind : TokenKind}
    (hf : s.front = some kind) (hk : kind ≠ .symbol '.') :
    collect member (ahead ts s) = .ok (members, s) := by
  induction members generalizing ts with
  | nil =>
    obtain rfl := List.map_eq_nil_iff.mp hts
    exact collect_of_none (member_of_front hf hk)
  | cons m members ih =>
    obtain ⟨t, ts', rfl, ht, hts'⟩ := List.map_eq_cons_iff.mp hts
    obtain ⟨u, ts, rfl, hu, hts⟩ := List.map_eq_cons_iff.mp hts'
    have hsize : (ahead ts s).size < (((ahead ts s).report (.ok u)).report (.ok t)).size := by
      rw [size_report, size_report]
      omega
    rw [ahead_cons, ahead_cons, collect_of_some (member_report ht hu (ahead ts s)) hsize]
    exact map_of_ok _ (ih hts)

theorem path_ahead (name : String) (loc : Location) {members : List String} {ts : List Token}
    (hts : ts.map Token.kind = members.flatMap fun m => [.symbol '.', .word m]) {kind : TokenKind}
    (hf : s.front = some kind) (hk : kind ≠ .symbol '.') :
    (path name loc : Parser Expr) (ahead ts s) = .ok (.path loc (name :: members), s) := by
  unfold path
  rw [repeated_eq, tokens_eq, bind_of_ok (collect_member hts hf hk)]
  rfl

/-! ## arguments -/

/-- the parser reads the tokens of the expression, where the expression stops -/
def Reads (p : Parser Expr) (e : Expr) : Prop :=
  ∀ {ts s}, ts.map Token.kind = e.tokens → s.Stops precedence →
    ∃ e', e'.bare = e.bare ∧ p (ahead ts s) = .ok (e', s)

theorem argument_of_front {kind : TokenKind} (hf : s.front = some kind)
    (hk : kind.endsArguments = true) : argument inner s = .ok (none, s) := by
  obtain ⟨t, rfl, hp⟩ := peek_of_front hf
  have hend : (t.endsStatement || t.isSymbol ')') = true := hk
  unfold argument
  rw [lift_bind_of_ok hp, hend]
  rfl

/-- an argument behind which a comma comes or the arguments end -/
theorem argument_eq {e : Expr} {kind : TokenKind} (hf : s.front = some kind)
    (hk : kind.startsOperand = true) (h : inner.expression s = .ok (e, s')) :
    argument inner s = (peek >>= fun token =>
      if token.isSymbol ',' then next >>= fun _ => pure (some e)
      else if token.endsStatement || token.isSymbol ')' then pure (some e)
      else fail (token.unexpected .argumentEnd)) s' := by
  obtain ⟨t, rfl, hp⟩ := peek_of_front hf
  have hend : (t.endsStatement || t.isSymbol ')') = false :=
    TokenKind.not_endsArguments_of_startsOperand hk
  unfold argument
  rw [lift_bind_of_ok hp, hend]
  exact bind_of_ok h

theorem argument_comma {e : Expr} {t : Token} {kind : TokenKind} (hf : s.front = some kind)
    (hk : kind.startsOperand = true) (ht : t.kind = .symbol ',')
    (h : inner.expression s = .ok (e, s'.report (.ok t))) :
    argument inner s = .ok (some e, s') := by
  have hcomma : t.isSymbol ',' = true := by rw [Token.isSymbol, ht, beq_self_eq_true]
  rw [argument_eq hf hk h, bind_of_ok (peek_report t s'), hcomma]
  rfl

theorem argument_last {e : Expr} {kind kind' : TokenKind} (hf : s.front = some kind)
    (hk : kind.startsOperand = true) (h : inner.expression s = .ok (e, s'))
    (hf' : s'.front = some kind') (hk' : kind'.endsArguments = true) :
    argument inner s = .ok (some e, s') := by
  obtain ⟨t, rfl, hp⟩ := peek_of_front hf'
  have hend : (t.endsStatement || t.isSymbol ')') = true := hk'
  have hcomma : t.isSymbol ',' = false := by
    rw [Token.isSymbol, beq_eq_false_iff_ne]
    intro ht
    rw [ht] at hk'
    cases hk'
  rw [argument_eq hf hk h, bind_of_ok hp, hcomma, hend]
  rfl

theorem arguments_of_front {kind : TokenKind} (hf : s.front = some kind)
    (hk : kind.endsArguments = true) : arguments inner s = .ok ([], s) :=
  collect_of_none (argument_of_front hf hk)

theorem arguments_of_some {e : Expr} (h : argument inner s = .ok (some e, s'))
    (hs : s'.size < s.size) : arguments inner s = ((e :: ·) <$> arguments inner) s' :=
  collect_of_some h hs

/-- arguments that can be read one by one are read up to the end of the arguments -/
theorem arguments_ahead {es : List Expr} {ts : List Token} {kind : TokenKind}
    (hspelled : Expr.allSpelled es = true) (hes : ∀ e ∈ es, Reads inner.expression e)
    (hts : ts.map Token.kind = Expr.argTokens es) (hf : s.front = some kind)
    (hk : kind.endsArguments = true) :
    ∃ es', Expr.bares es' = Expr.bares es ∧ arguments inner (ahead ts s) = .ok (es', s) := by
  induction es generalizing ts with
  | nil =>
    obtain rfl := List.map_eq_nil_iff.mp hts
    exact ⟨[], rfl, arguments_of_front hf hk⟩
  | cons e es ih =>
    simp only [Expr.allSpelled, Bool.and_eq_true] at hspelled
    obtain ⟨us, vs, rfl, hus, hvs⟩ := List.map_eq_append_iff.mp hts
    obtain ⟨kind', hf', hk', -⟩ := Expr.front_ahead hspelled.1 hus (ahead vs s)
    have hus0 : 0 < us.length := by
      obtain ⟨_, _, htokens, -⟩ := Expr.tokens_head e hspelled.1
      rw [← List.length_map, hus, htokens]
      exact Nat.succ_pos _
    rw [ahead_append]
    cases es with
    | nil =>
      obtain rfl := List.map_eq_nil_iff.mp hvs
      obtain ⟨e', he', hread⟩ := hes e List.mem_cons_self hus
        ⟨kind, hf, TokenKind.stops_of_endsArguments hk⟩
      refine ⟨[e'], by rw [Expr.bares, Expr.bares, he']; rfl, ?_⟩
      have hsize : s.size < (ahead us s).size := by
        rw [size_ahead]
        omega
      rw [ahead_nil] at hf' ⊢
      rw [arguments_of_some (argument_last hf' hk' hread hf hk) hsize]
      exact map_of_ok _ (arguments_of_front hf hk)
    | cons e₂ es =>
      obtain ⟨t, vs, rfl, ht, hvs⟩ := List.map_eq_cons_iff.mp hvs
      have hstops : (ahead (t :: vs) s).Stops precedence := ⟨.symbol ',', by rw [← ht]; rfl, rfl⟩
      obtain ⟨e', he', hread⟩ := hes e List.mem_cons_self hus hstops
      obtain ⟨es', hes', hreads⟩ :=
        ih hspelled.2 (fun e he => hes e (List.mem_cons_of_mem _ he)) hvs
      refine ⟨e' :: es', by rw [Expr.bares, he', hes']; rfl, ?_⟩
      have hsize : (ahead vs s).size < (ahead us (ahead (t :: vs) s)).size := by
        rw [size_ahead us, ahead_cons, size_report]
        omega
      rw [arguments_of_some (argument_comma hf' hk' ht hread) hsize]
      exact map_of_ok _ hreads

/-! ## calls -/

theorem calls_of_front {kind : TokenKind} (hf : s.front = some kind) (hk : kind ≠ .symbol '(')
    (callee : Expr) : calls inner callee s = .ok (callee, s) := by
  have hnone : argumentList inner s = .ok (none, s) := by
    unfold argumentList
    rw [lift_bind_of_ok (eatSymbol_of_front hf hk)]
    rfl
  unfold calls
  rw [repeated_eq, bind_of_ok (collect_of_none hnone)]
  rfl

/-- an argument list makes the operand a call, behind which more argument lists may come -/
theorem calls_step {args : List Expr} {t u : Token} (ht : t.kind = .symbol '(')
    (hargs : arguments inner s = .ok (args, s'.report (.ok u))) (hu : u.kind = .symbol ')')
    (hsize : s'.size ≤ s.size) (callee : Expr) :
    calls inner callee (s.report (.ok t)) = calls inner (.call callee.location callee args) s' := by
  have hsome : argumentList inner (s.report (.ok t)) = .ok (some args, s') := by
    unfold argumentList
    rw [lift_bind_of_ok (eatSymbol_report ht s)]
    show (arguments inner >>= fun args => expectSymbol ')' >>= fun _ => pure (some args)) s = _
    rw [bind_of_ok hargs, bind_of_ok (expectSymbol_report hu s')]
    rfl
  have hlt : s'.size < (s.report (.ok t)).size := by
    rw [size_report]
    omega
  unfold calls
  exact collect_bind_of_some hsome hlt

/-! ## operands by their first token -/

theorem factorIn_integer {t : Token} {n : Int64} (ht : t.kind = .integer n) (s : TokenStream) :
    factorIn inner (s.report (.ok t)) = calls inner (.literal t.location (.integer n)) s := by
  unfold factorIn
  rw [lift_bind_of_ok (next_report t s)]
  simp only [ht]

theorem factorIn_string {t : Token} {text : String} (ht : t.kind = .string text)
    (s : TokenStream) :
    factorIn inner (s.report (.ok t)) = calls inner (.literal t.location (.string text)) s := by
  unfold factorIn
  rw [lift_bind_of_ok (next_report t s)]
  simp only [ht]

theorem factorIn_word {t : Token} {w : String} (ht : t.kind = .word w) (s : TokenStream) :
    factorIn inner (s.report (.ok t)) = wordFactor inner t w s := by
  unfold factorIn
  rw [lift_bind_of_ok (next_report t s)]
  simp only [ht]

theorem factorIn_minus {t : Token} (ht : t.kind = .symbol '-') {e : Expr}
    (h : inner.factor t.location s = .ok (e, s')) :
    factorIn inner (s.report (.ok t)) = .ok (.unary t.location .neg e, s') := by
  unfold factorIn
  rw [lift_bind_of_ok (next_report t s)]
  rw [ht]
  exact (bind_of_ok h).trans rfl

theorem factorIn_paren {t u : Token} (ht : t.kind = .symbol '(') {e : Expr}
    (h : inner.expression s = .ok (e, s'.report (.ok u))) (hu : u.kind = .symbol ')') :
    factorIn inner (s.report (.ok t)) = calls inner (.paren t.location e) s' := by
  unfold factorIn
  rw [lift_bind_of_ok (next_report t s)]
  rw [ht]
  exact (bind_of_ok h).trans (bind_of_ok (expectSymbol_report hu s'))

theorem sameWord_eq_false {w keyword : String} (hw : isReserved w = false)
    (hk : isReserved keyword = true) : Text.sameWord w keyword = false := by
  cases h : Text.sameWord w keyword with
  | false => rfl
  | true =>
    rw [isReserved, (Text.sameWord_iff w keyword).mp h] at hw
    exact absurd (hw.symm.trans hk) (by decide)

/-- a word that is not reserved starts a path -/
theorem wordFactor_name {t : Token} {w : String} (hw : isReserved w = false) :
    wordFactor inner t w = (path w t.location >>= calls inner) := by
  unfold wordFactor
  simp only [sameWord_eq_false hw (show isReserved "true" = true by decide),
    sameWord_eq_false hw (show isReserved "false" = true by decide),
    sameWord_eq_false hw (show isReserved "new" = true by decide),
    sameWord_eq_false hw (show isReserved "not" = true by decide), hw]
  rfl

end Parser

open PageScript.Parser

/-! ## expressions -/

/-- how the tokens of an expression are read where `k` levels of nesting are allowed inside it -/
structure Expr.Read (k : Nat) (e : Expr) : Prop where
  /-- on the levels of its own group and looser ones, it is read as the leftmost operand -/
  level : ∀ {n ts s}, n ≤ e.level → ts.map Token.kind = e.tokens →
    s.Stops (precedence.drop (e.level + 1)) → (e.isOpen = true → s.Stops precedence) →
    ∃ e', e'.bare = e.bare ∧
      levels (precedence.drop n) (factorIn (nested k)) (factorIn (nested k)) (ahead ts s)
        = levels (precedence.drop n) (pure e') (factorIn (nested k)) s
  /-- what can be called is read with the calls behind it -/
  callee : e.isCallable = true → ∀ {ts s kind}, ts.map Token.kind = e.tokens →
    s.front = some kind → kind ≠ .symbol '.' →
    ∃ e', e'.bare = e.bare ∧ factorIn (nested k) (ahead ts s) = calls (nested k) e' s

namespace Expr.Read

variable {k : Nat} {e : Expr}

theorem of_factor (hcall : e.isCallable = false)
    (h : ∀ {ts s}, ts.map Token.kind = e.tokens → s.Stops [] →
      (e.isOpen = true → s.Stops precedence) →
      ∃ e', e'.bare = e.bare ∧ factorIn (nested k) (ahead ts s) = .ok (e', s)) : e.Read k where
  level := by
    intro n ts s _ hts hstops hopen
    obtain ⟨e', he', hf⟩ := h hts (hstops.mono (List.nil_subset _)) hopen
    exact ⟨e', he', levels_first hf _⟩
  callee := by
    intro hc
    rw [hcall] at hc
    cases hc

theorem of_calls
    (h : ∀ {ts s kind}, ts.map Token.kind = e.tokens → s.front = some kind → kind ≠ .symbol '.' →
      ∃ e', e'.bare = e.bare ∧ factorIn (nested k) (ahead ts s) = calls (nested k) e' s) :
    e.Read k where
  level := by
    intro n ts s _ hts hstops _
    obtain ⟨kind, hf, hk⟩ := hstops
    simp only [TokenKind.stops, Bool.and_eq_true, bne_iff_ne, ne_eq] at hk
    obtain ⟨e', he', hread⟩ := h hts hf hk.1.2
    exact ⟨e', he', levels_first (hread.trans (calls_of_front hf hk.1.1 e')) _⟩
  callee := fun _ => h

theorem reads (h : e.Read k) : Reads (nested (k + 1)).expression e := by
  intro ts s hts hstops
  obtain ⟨e', he', hread⟩ := h.level (Nat.zero_le _) hts
    (hstops.mono (List.drop_subset _ _)) fun _ => hstops
  refine ⟨e', he', ?_⟩
  show levels precedence (factorIn (nested k)) (factorIn (nested k)) (ahead ts s) = _
  exact hread.trans (levels_of_stops hstops e')

/-- what is no operation is read as an operand -/
theorem factor (h : e.Read k) (hlevel : e.level = precedence.length) {ts : List Token}
    {s : TokenStream} (hts : ts.map Token.kind = e.tokens) (hstops : s.Stops [])
    (hopen : e.isOpen = true → s.Stops precedence) :
    ∃ e', e'.bare = e.bare ∧ factorIn (nested k) (ahead ts s) = .ok (e', s) := by
  have hdrop : s.Stops (precedence.drop (e.level + 1)) := by
    rw [hlevel]
    exact hstops
  obtain ⟨e', he', hread⟩ := h.level (Nat.le_of_eq hlevel.symm) hts hdrop hopen
  exact ⟨e', he', hread⟩

theorem operation {op : BinaryOp} {n : Nat} {os ws : List Token} {s : TokenStream} (h : e.Read k)
    (hs : e.spelled = true) (hlevel : op.level < e.level) (hn : n ≤ op.level)
    (hos : os.map Token.kind = op.tokens) (hws : ws.map Token.kind = e.tokens)
    (hstops : s.Stops (precedence.drop (op.level + 1)))
    (hopen : e.isOpen = true → s.Stops precedence) :
    ∃ loc e', e'.bare = e.bare ∧ ∀ left,
      levels (precedence.drop n) (pure left) (factorIn (nested k)) (ahead os (ahead ws s))
        = levels (precedence.drop n) (pure (.binary loc op left e')) (factorIn (nested k)) s := by
  obtain ⟨e', he', hread⟩ :=
    h.level (n := op.level + 1) (by omega) hws (hstops.drop (by omega)) hopen
  rw [levels_of_stops hstops] at hread
  obtain ⟨kind, hf, hkind, -⟩ := Expr.front_ahead hs hws s
  obtain ⟨loc, hstep⟩ := levels_step hn hos hf hkind hread hstops (by rw [size_ahead]; omega)
  exact ⟨loc, e', he', hstep⟩

end Expr.Read

theorem Literal.read (v : Literal) {k : Nat} {t : Token} (ht : t.kind = v.token)
    (s : TokenStream) :
    factorIn (nested k) (s.report (.ok t)) = calls (nested k) (.literal t.location v) s := by
  cases v with
  | integer n => exact factorIn_integer ht s
  | string text => exact factorIn_string ht s
  | boolean b =>
    cases b with
    | true =>
      rw [factorIn_word ht, wordFactor]
      rfl
    | false =>
      rw [factorIn_word ht, wordFactor]
      rfl

mutual
/-- **A canonical expression is read back from its tokens.** -/
theorem Expr.read : ∀ (e : Expr) {k : Nat}, e.spelled = true → e.canonical = true →
    e.nesting ≤ k → e.Read k
  | .literal l v, k, _, _, _ => by
    refine .of_calls fun {ts s kind} hts _ _ => ?_
    obtain ⟨t, rfl, ht⟩ := List.map_eq_singleton_iff.mp hts
    exact ⟨.literal t.location v, rfl, Literal.read v ht s⟩
  | .path l names, k, hs, _, _ => by
    refine .of_calls fun {ts s kind} hts hf hk => ?_
    cases names with
    | nil => cases hs
    | cons name members =>
      simp only [Expr.spelled, isPath, isName, Bool.and_eq_true, Bool.not_eq_true'] at hs
      obtain ⟨t, us, rfl, ht, hus⟩ := List.map_eq_cons_iff.mp hts
      refine ⟨.path t.location (name :: members), rfl, ?_⟩
      rw [ahead_cons, factorIn_word ht, wordFactor_name hs.1.2]
      exact bind_of_ok (path_ahead name t.location hus hf hk)
  | .binary l op left right, k, hs, hc, hk => by
    simp only [Expr.spelled, Expr.canonical, Expr.nesting, Bool.and_eq_true, decide_eq_true_eq,
      Bool.not_eq_true', Nat.max_le] at hs hc hk
    obtain ⟨⟨hcl, hcr⟩, ⟨hll, hol⟩, hlr⟩ := hc
    refine ⟨fun {n ts s} hn hts hstops hopen => ?_, fun h => by cases h⟩
    obtain ⟨us, vs, rfl, hus, hvs⟩ := List.map_eq_append_iff.mp hts
    obtain ⟨os, ws, rfl, hos, hws⟩ := List.map_eq_append_iff.mp hvs
    rw [ahead_append, ahead_append]
    -- the left operand, up to the operator
    have hleft : (ahead os (ahead ws s)).Stops (precedence.drop (left.level + 1)) :=
      (stops_ahead_tokens op hos (ahead ws s)).drop (by omega)
    have hn' : n ≤ op.level := hn
    obtain ⟨left', hl', hreadl⟩ := (Expr.read left hs.1 hcl hk.1).level (n := n) (by omega) hus
      hleft (by rw [hol]; intro h; cases h)
    obtain ⟨loc, right', hr', hstep⟩ :=
      (Expr.read right hs.2 hcr hk.2).operation hs.2 hlr hn' hos hws hstops hopen
    refine ⟨.binary loc op left' right', ?_, hreadl.trans (hstep left')⟩
    rw [Expr.bare, Expr.bare, hl', hr']
  | .unary l .neg a, k, hs, hc, hk => by
    simp only [Expr.canonical, Expr.nesting, Bool.and_eq_true, decide_eq_true_eq] at hc hk
    obtain ⟨k, rfl⟩ : ∃ j, k = j + 1 := ⟨k - 1, by omega⟩
    refine .of_factor rfl fun {ts s} hts hstops hopen => ?_
    obtain ⟨t, us, rfl, ht, hus⟩ := List.map_eq_cons_iff.mp hts
    obtain ⟨a', ha', hread⟩ :=
      (Expr.read a (k := k) hs hc.1 (by omega)).factor hc.2 hus hstops hopen
    refine ⟨.unary t.location .neg a', by rw [Expr.bare, Expr.bare, ha'], ?_⟩
    exact factorIn_minus ht hread
  | .unary l .not a, k, hs, hc, hk => by
    simp only [Expr.nesting] at hk
    obtain ⟨k, rfl⟩ : ∃ j, k = j + 1 := ⟨k - 1, by omega⟩
    refine .of_factor rfl fun {ts s} hts _ hopen => ?_
    obtain ⟨t, us, rfl, ht, hus⟩ := List.map_eq_cons_iff.mp hts
    obtain ⟨a', ha', hread⟩ := (Expr.read a (k := k) hs hc (by omega)).reads hus (hopen rfl)
    refine ⟨.unary t.location .not a', by rw [Expr.bare, Expr.bare, ha'], ?_⟩
    rw [ahead_cons, factorIn_word ht, wordFactor]
    exact (bind_of_ok hread).trans rfl
  | .call l f as, k, hs, hc, hk => by
    simp only [Expr.spelled, Expr.canonical, Expr.nesting, Bool.and_eq_true, Nat.max_le]
      at hs hc hk
    refine .of_calls fun {ts s kind} hts hf hkind => ?_
    obtain ⟨us, vs, rfl, hus, hvs⟩ := List.map_eq_append_iff.mp hts
    obtain ⟨t, vs, rfl, ht, hvs'⟩ := List.map_eq_cons_iff.mp hvs
    obtain ⟨vs, ws, rfl, has, hws⟩ := List.map_eq_append_iff.mp hvs'
    obtain ⟨u, rfl, hu⟩ := List.map_eq_singleton_iff.mp hws
    have hfront : (ahead [u] s).front = some (.symbol ')') := by rw [← hu]; rfl
    obtain ⟨as', has', hargs⟩ := arguments_ahead hs.2 (Expr.reads_args as hs.2 hc.2 hk.2) has
      hfront rfl
    have hopen : (ahead (t :: (vs ++ [u])) s).front = some (.symbol '(') := by rw [← ht]; rfl
    obtain ⟨f', hf', hread⟩ := (Expr.read f hs.1 hc.1.1 hk.1).callee hc.1.2 hus hopen (by simp)
    refine ⟨.call f'.location f' as', by rw [Expr.bare, Expr.bare, hf', has'], ?_⟩
    rw [ahead_append, hread, ahead_cons, ahead_append]
    exact calls_step ht hargs hu (by rw [size_ahead, size_ahead]; simp; omega) f'
  | .new l c, k, hs, _, _ => by
    simp only [Expr.spelled, isName, Bool.and_eq_true, Bool.not_eq_true'] at hs
    refine .of_factor rfl fun {ts s} hts _ _ => ?_
    obtain ⟨t, us, rfl, ht, hus⟩ := List.map_eq_cons_iff.mp hts
    obtain ⟨u, rfl, hu⟩ := List.map_eq_singleton_iff.mp hus
    refine ⟨.new t.location c, rfl, ?_⟩
    rw [ahead_cons, factorIn_word ht, wordFactor]
    exact (bind_of_ok (expectName_report hu hs.2 .className s)).trans rfl
  | .paren l a, k, hs, hc, hk => by
    simp only [Expr.nesting] at hk
    obtain ⟨k, rfl⟩ : ∃ j, k = j + 1 := ⟨k - 1, by omega⟩
    refine .of_calls fun {ts s kind} hts hf _ => ?_
    obtain ⟨t, us, rfl, ht, hus⟩ := List.map_eq_cons_iff.mp hts
    obtain ⟨us, vs, rfl, ha, hvs⟩ := List.map_eq_append_iff.mp hus
    obtain ⟨u, rfl, hu⟩ := List.map_eq_singleton_iff.mp hvs
    have hstops : (ahead [u] s).Stops precedence := ⟨.symbol ')', by rw [← hu]; rfl, rfl⟩
    obtain ⟨a', ha', hread⟩ := (Expr.read a (k := k) hs hc (by omega)).reads ha hstops
    refine ⟨.paren t.location a', by rw [Expr.bare, Expr.bare, ha'], ?_⟩
    rw [ahead_cons, ahead_append]
    exact factorIn_paren ht hread hu

theorem Expr.reads_args : ∀ (es : List Expr) {k : Nat}, Expr.allSpelled es = true →
    Expr.allCanonical es = true → Expr.argNesting es ≤ k →
    ∀ e ∈ es, Reads (nested k).expression e
  | [], _, _, _, _ => by
    intro e he
    cases he
  | e :: es, k, hs, hc, hk => by
    simp only [Expr.allSpelled, Expr.allCanonical, Expr.argNesting, Bool.and_eq_true, Nat.max_le]
      at hs hc hk
    obtain ⟨k, rfl⟩ : ∃ j, k = j + 1 := ⟨k - 1, by omega⟩
    intro e' he'
    rcases List.mem_cons.mp he' with heq | he'
    · rw [heq]
      exact (Expr.read e hs.1 hc.1 (by omega)).reads
    · exact Expr.reads_args es hs.2 hc.2 hk.2 e' he'
end

end PageScript
