import PageScript.Proofs.Parser.ReadBlock
import PageScript.Proofs.Parser.SoundBlock
import PageScript.Proofs.Program.Invariant

/-!
# Statements that are not read back

An accepted call whose text is read as the same call reprints.  So a block with accepted calls
that is read back from its own tokens has calls that reprint only (`Block.reprints_of_read`).

The calls that do not reprint are read as something else in one of these ways:

* a text that is printed outside code is read as a call of the path of such texts in its very
  spelling;
* parentheses at the start of the first argument are read as an argument list of the path, so that
  `=` behind them makes an assignment, and behind further parentheses the statement does not end;
* the arguments of a call without parentheses take a level of nesting, which the statement of a
  chunk does not;
* an argument list behind an operation is read as a part of its last operand.

What is read after a statement that reprints is known, since the statement has been read back
(`Stmt.read`), so the statements of a block are treated from the first to the last.
-/

namespace PageScript

open TokenStream PageScript.Parser

/-! ## how many tokens spell an expression -/

/-- the tokens other than commas -/
def TokenKind.counts (kind : TokenKind) : Bool := kind != .symbol ','

theorem TokenKind.Alike.counts {a b : TokenKind} (h : a.Alike b) : a.counts = b.counts := by
  rcases h with rfl | ⟨v, w, rfl, rfl, -⟩
  · rfl
  · rfl

theorem BinaryOp.SpelledBy.countP {op : BinaryOp} {ks : List TokenKind} (h : op.SpelledBy ks) :
    ks.countP TokenKind.counts = op.tokens.countP TokenKind.counts := by
  rcases h with rfl | ⟨kind, word, rfl, htokens, halike⟩
  · rfl
  · rw [htokens, List.countP_singleton, List.countP_singleton, halike.counts]

mutual
/-- token sequences that spell an expression differ in their commas only -/
theorem Expr.SpelledBy.countP : ∀ {e : Expr} {ks : List TokenKind}, e.SpelledBy ks →
    ks.countP TokenKind.counts = e.tokens.countP TokenKind.counts
  | .literal .., _, ⟨kind, hks, halike⟩ => by
    rw [hks, Expr.tokens, List.countP_singleton, List.countP_singleton, halike.counts]
  | .path .., _, h => by rw [h, Expr.tokens]
  | .binary _ op left right, _, ⟨as, os, bs, hks, hl, ho, hr⟩ => by
    simp only [hks, Expr.tokens, List.countP_append, Expr.SpelledBy.countP hl, ho.countP,
      Expr.SpelledBy.countP hr]
  | .unary _ .neg operand, _, ⟨as, hks, ha⟩ => by
    simp only [hks, Expr.tokens, List.countP_cons, Expr.SpelledBy.countP ha]
  | .unary _ .not operand, _, ⟨kind, as, hks, halike, ha⟩ => by
    simp only [hks, Expr.tokens, List.countP_cons, Expr.SpelledBy.countP ha, halike.counts]
  | .call _ callee args, _, ⟨as, bs, hks, hf, hargs⟩ => by
    simp only [hks, Expr.tokens, List.countP_append, List.countP_cons, Expr.SpelledBy.countP hf,
      Expr.ArgsSpelledBy.countP hargs]
  | .new .., _, ⟨kind, hks, halike⟩ => by
    simp only [hks, Expr.tokens, List.countP_cons, halike.counts]
  | .paren _ inner, _, ⟨as, hks, ha⟩ => by
    simp only [hks, Expr.tokens, List.countP_append, List.countP_cons, Expr.SpelledBy.countP ha]

theorem Expr.ArgsSpelledBy.countP : ∀ {es : List Expr} {ks : List TokenKind},
    Expr.ArgsSpelledBy es ks →
      ks.countP TokenKind.counts = (Expr.argTokens es).countP TokenKind.counts
  | [], _, h => by rw [h, Expr.argTokens]
  | e :: es, _, ⟨as, bs, hks, ha, hb⟩ => by
    simp only [hks, Expr.argTokens, List.countP_append, Expr.SpelledBy.countP ha,
      Expr.MoreSpelledBy.countP hb]

theorem Expr.MoreSpelledBy.countP : ∀ {es : List Expr} {ks : List TokenKind},
    Expr.MoreSpelledBy es ks →
      ks.countP TokenKind.counts = (Expr.moreTokens es).countP TokenKind.counts
  | [], _, h => by
    rcases h with rfl | rfl
    · rfl
    · rfl
  | e :: es, _, ⟨as, bs, hks, ha, hb⟩ => by
    simp only [hks, Expr.moreTokens, List.countP_cons, List.countP_append,
      Expr.SpelledBy.countP ha, Expr.MoreSpelledBy.countP hb]
end

/-- of two ways to take tokens from a stream, one takes more -/
theorem TokenStream.ahead_eq_ahead {ts us : List Token} {s s' : TokenStream}
    (h : ahead ts s = ahead us s') :
    (∃ vs, us = ts ++ vs ∧ s = ahead vs s') ∨ ∃ vs, ts = us ++ vs ∧ s' = ahead vs s := by
  induction ts generalizing us with
  | nil => exact .inl ⟨us, rfl, h⟩
  | cons t ts ih =>
    cases us with
    | nil => exact .inr ⟨t :: ts, rfl, h.symm⟩
    | cons u us =>
      obtain ⟨hpending, hfinish⟩ := TokenStream.mk.inj h
      obtain ⟨htu, hrest⟩ := List.cons.inj hpending
      cases htu
      have htail : ahead ts s = ahead us s' := by
        rw [show ahead ts s = ⟨(ahead ts s).pending, (ahead ts s).finish⟩ from rfl, hrest, hfinish]
      rcases ih htail with ⟨vs, rfl, hvs⟩ | ⟨vs, rfl, hvs⟩
      · exact .inl ⟨vs, rfl, hvs⟩
      · exact .inr ⟨vs, rfl, hvs⟩

/-- what is spelled by the tokens of an expression, in front of an argument list, does not end at
the end of a statement -/
theorem Expr.Taken.not_endsStatement {depth : Expr → Nat} {k n : Nat} {e x : Expr}
    {s s' : TokenStream} {ts : List Token} (h : x.Taken depth k n (ahead ts s) s')
    (hts : ts.map Token.kind = e.tokens) (hx : x.bare = e.bare)
    (hs : s.front = some (.symbol '(')) {kind : TokenKind} (hs' : s'.front = some kind) :
    kind.endsStatement = false := by
  obtain ⟨us, hstream, hus⟩ := h.spelledBy
  have hcount : us.countP (·.kind.counts) = ts.countP (·.kind.counts) := by
    have h := hus.countP
    rw [← Expr.tokens_bare x, hx, Expr.tokens_bare, ← hts, List.countP_map, List.countP_map] at h
    exact h
  rcases ahead_eq_ahead hstream with ⟨vs, rfl, hvs⟩ | ⟨vs, rfl, hvs⟩
  · rw [List.countP_append] at hcount
    cases vs with
    | nil =>
      rw [ahead_nil] at hvs
      rw [← hvs, hs] at hs'
      cases hs'
      rfl
    | cons v vs =>
      rw [hvs, ahead_cons, front_report] at hs
      rw [List.countP_cons, Option.some.inj hs] at hcount
      simp [TokenKind.counts] at hcount
  · rw [List.countP_append] at hcount
    cases vs with
    | nil =>
      rw [hvs, ahead_nil, hs] at hs'
      cases hs'
      rfl
    | cons v vs =>
      rw [hvs, ahead_cons, front_report] at hs'
      rw [List.countP_cons] at hcount
      have hcomma : v.kind.counts = false := by
        cases hv : v.kind.counts with
        | false => rfl
        | true =>
          rw [hv] at hcount
          simp at hcount
      have hkind : v.kind = .symbol ',' := by simpa [TokenKind.counts] using hcomma
      rw [hkind] at hs'
      cases hs'
      rfl

/-! ## calls that do not reprint -/

namespace Parser

variable {k : Nat} {blk : Parser Block} {s s' : TokenStream} {st : Stmt}

theorem ended_eq_ok {p : Parser Stmt} {o : Option (List Stmt)} (h : ended p s = .ok (o, s')) :
    ∃ st s₁ kind, o = some [st] ∧ p s = .ok (st, s₁) ∧ s₁.front = some kind
      ∧ kind.endsStatement = true := by
  obtain ⟨st, s₁, hp, hrest⟩ := bind_eq_ok h
  obtain ⟨_, s₂, hend, hret⟩ := bind_eq_ok hrest
  cases hret
  obtain ⟨kind, hf, hkind⟩ := endOfStatement_eq_ok hend
  exact ⟨st, s₁, kind, rfl, hp, hf, hkind⟩

/-- parentheses that clash with the path in front of them are not read as an argument -/
theorem misread_clash {names : List String} {a : Expr} {as : List Expr} {loc : Location}
    {ts : List Token} (hs : Expr.allSpelled (a :: as) = true)
    (hc : Expr.allCanonical (a :: as) = true) (hk : statementNesting (a :: as) ≤ k)
    (hclash : a.clashes = true) (hts : ts.map Token.kind = Expr.argTokens (a :: as))
    (h : afterPath (nested k) loc (.path loc names) (ahead ts s) = .ok (st, s'))
    {kind : TokenKind} (hf : s'.front = some kind) (hend : kind.endsStatement = true) :
    ∃ l target value, st = .assign l target value := by
  simp only [Expr.allSpelled, Expr.allCanonical, statementNesting, Bool.and_eq_true, Nat.max_le]
    at hs hc hk
  obtain ⟨x, kind', ks, hopen, hrest, hkind'⟩ := Expr.restTokens_of_clashes hclash
  obtain ⟨us, vs, rfl, hus, -⟩ := List.map_eq_append_iff.mp hts
  rw [Expr.tokens_of_opening hopen] at hus
  obtain ⟨t, us, rfl, ht, hus⟩ := List.map_eq_cons_iff.mp hus
  obtain ⟨us, ws, rfl, hxs, hws⟩ := List.map_eq_append_iff.mp hus
  obtain ⟨u, ws, rfl, hu, hws⟩ := List.map_eq_cons_iff.mp hws
  rw [hrest] at hws
  obtain ⟨v, ws, rfl, hv, -⟩ := List.map_eq_cons_iff.mp hws
  have hnesting : x.nesting < k := by
    have := Expr.opening_firstNesting hopen
    omega
  obtain ⟨x', -, hopened⟩ := afterPath_opening loc (.path loc names)
    (Expr.opening_spelled hopen hs.1) (Expr.opening_canonical hopen hc.1) hnesting ht hxs hu
    (ahead (v :: ws) (ahead vs s))
  rw [← ahead_append, ← ahead_append] at hopened
  simp only [List.cons_append, List.append_assoc, List.nil_append] at hopened h
  rw [hopened, ahead_cons] at h
  obtain rfl | rfl := hkind'
  · rw [afterArguments_assign hv] at h
    obtain ⟨value, s₁, -, hret⟩ := bind_eq_ok h
    cases hret
    exact ⟨_, _, _, rfl⟩
  · -- the argument is over in front of the second pair of parentheses
    obtain ⟨k, rfl⟩ : ∃ j, k = j + 1 := ⟨k - 1, by omega⟩
    have hfront : ((ahead ws (ahead vs s)).report (.ok v)).front = some (.symbol '(') := by
      rw [front_report, hv]
    have hcont : (nested (k + 1)).continued (.paren t.location x')
        ((ahead ws (ahead vs s)).report (.ok v)) = .ok (.paren t.location x', _) :=
      levels_of_not_takes hfront (by decide) _
    rw [afterArguments_seed hfront (by simp) rfl, callFromSeed_continued hfront (by simp),
      bind_of_ok hcont] at h
    unfold callFromFirst at h
    rw [lift_bind_of_ok (eatSymbol_of_front hfront (by simp))] at h
    cases h
    rw [hfront] at hf
    cases hf
    cases hend

/-- where no level of nesting is left, a call without parentheses has no arguments -/
theorem misread_level {names : List String} {l : Location} {text : String} {loc : Location}
    {ts : List Token} (hlex : (ahead ts s).Lexical)
    (hts : ts.map Token.kind = Expr.argTokens [.literal l (.string text)])
    (h : afterPath (nested 0) loc (.path loc names) (ahead ts s) = .ok (st, s')) :
    st = callStatement loc (.path loc names) [] := by
  obtain ⟨t, rfl, ht⟩ := List.map_eq_singleton_iff.mp hts
  have hf : (ahead [t] s).front = some (.string text) := by
    rw [ahead_cons, front_report, ht]
    rfl
  rw [afterPath_arguments hf (by simp) (by simp)] at h
  obtain ⟨args, s₁, hargs, hret⟩ := bind_eq_ok h
  obtain ⟨-, -, hnesting⟩ := (arguments_yields 0 _ _ _ hlex hargs).1
  cases hret
  cases args with
  | nil => rfl
  | cons a as =>
    rw [Expr.argNesting] at hnesting
    omega

theorem reprints_pathCall {l l' : Location} {names : List String} {args : List Expr}
    (h : (Expr.call l (.path l' names) args).accepted k = true)
    (htext : chunkText? (.call l (.path l' names) args) = none) {ts : List Token} {u : Token}
    (hts : ts.map Token.kind = pathTokens names ++ Expr.argTokens args) (hu : u.kind = .symbol ':')
    (hlex : (ahead ts (s.report (.ok u))).Lexical) {o : Option (List Stmt)}
    (hround : someStatements (nested k) blk (ahead ts (s.report (.ok u))) = .ok (o, s')) :
    ∃ st, o = some [st] ∧ (st.bare = .expr default (Expr.call l (.path l' names) args).bare →
      (Expr.call l (.path l' names) args).reprints k = true) := by
  have hspelled := Expr.scans_of_accepted h
  rw [Expr.scans, htext] at hspelled
  simp only [Option.isSome_none, Bool.false_or, Expr.spelled, Bool.and_eq_true] at hspelled
  obtain ⟨hnames, hs⟩ := hspelled
  obtain ⟨loc, ps, as, rfl, has, hpath⟩ :=
    someStatements_pathCall (nested k) blk hnames hs hts hu s
  rw [ahead_append] at hlex
  rw [hpath] at hround
  obtain ⟨st, s₁, kind, rfl, hafter, hf, hend⟩ := ended_eq_ok hround
  refine ⟨st, rfl, fun hbare => ?_⟩
  simp only [Expr.reprints, htext]
  cases args with
  | nil => rfl
  | cons a args =>
    simp only [Expr.accepted, Expr.acceptedLine, Bool.or_eq_true, Bool.and_eq_true,
      decide_eq_true_eq] at h
    rcases h with hchunk | ⟨⟨⟨-, -⟩, hc⟩, hk⟩
    · obtain ⟨_, _, l'', text, heq, -⟩ := Expr.writesChunk_iff.mp hchunk
      cases heq
      cases k with
      | succ k => simp [Expr.clashes]
      | zero =>
        rw [misread_level hlex.of_ahead has hafter] at hbare
        cases hbare
    · have hpos : 0 < k := by
        rw [statementNesting] at hk
        omega
      cases hclash : a.clashes with
      | false =>
        show (!a.clashes && decide (0 < k)) = true
        rw [hclash, decide_eq_true hpos]
        rfl
      | true =>
        obtain ⟨_, _, _, rfl⟩ := misread_clash hs hc hk hclash has hafter hf hend
        cases hbare

/-- an argument list behind an operation is not read as a call of the operation -/
theorem misread_callee {l : Location} {f : Expr} {ts : List Token} {t u : Token}
    (hf : f.isCallable = false) (hts : ts.map Token.kind = f.tokens)
    (ht : t.kind = .symbol '(') (hlex : (ahead ts (ahead [t, u] s)).Lexical) {e : Expr}
    (h : (nested k).expression (ahead ts (ahead [t, u] s)) = .ok (e, s')) {kind : TokenKind}
    (hfront : s'.front = some kind) (hend : kind.endsStatement = true) {loc : Location} :
    (calledStatement loc e).bare ≠ .expr default (Expr.call l f []).bare := by
  intro hbare
  have htaken := ((nested_takes k).expression hlex h).1
  have hnot : e.bare ≠ f.bare := by
    intro heq
    have hopen : (ahead [t, u] s).front = some (.symbol '(') := by rw [← ht]; rfl
    rw [htaken.not_endsStatement hts heq hopen hfront] at hend
    cases hend
  cases e with
  | call l' callee args =>
    -- what has been read as a call has an operand as its callee
    have heq : callee.bare = f.bare := (Expr.call.inj (Stmt.expr.inj hbare).2).2.1
    have hc := htaken.canonical
    simp only [Expr.canonical, Bool.and_eq_true] at hc
    rw [← Expr.isCallable_bare, ← heq, Expr.isCallable_bare, hc.1.2] at hf
    cases hf
  | _ => exact hnot (Expr.call.inj (Stmt.expr.inj hbare).2).2.1

theorem reprints_explicitCall {l : Location} {f : Expr} {args : List Expr}
    (hne : ∀ l' names, f = .path l' names → False)
    (h : (Expr.call l f args).accepted k = true) {ts : List Token} {u : Token}
    (hts : ts.map Token.kind = .word "call" :: (Expr.call l f args).tokens)
    (hlex : (ahead ts (s.report (.ok u))).Lexical) {o : Option (List Stmt)}
    (hround : someStatements (nested k) blk (ahead ts (s.report (.ok u))) = .ok (o, s')) :
    ∃ st, o = some [st] ∧
      (st.bare = .expr default (Expr.call l f args).bare → f.isCallable = true) := by
  rw [Expr.accepted, Bool.or_eq_true] at h
  have hline : (Expr.call l f args).acceptedLine k = true := by
    rcases h with hchunk | h
    · obtain ⟨_, l', _, _, heq, -⟩ := Expr.writesChunk_iff.mp hchunk
      cases heq
      exact absurd rfl (hne l' writePath)
    · exact h
  have hspelled := Expr.spelled_of_acceptedLine hline
  simp only [Expr.acceptedLine.eq_2 k l f args hne, Bool.and_eq_true, Bool.or_eq_true,
    List.isEmpty_iff] at hline
  obtain ⟨w, us, rfl, hw, hus⟩ := List.map_eq_cons_iff.mp hts
  obtain ⟨kind, hfront, -⟩ := Expr.front_ahead hspelled hus (s.report (.ok u))
  obtain ⟨loc, hcall⟩ := explicitCall_report (nested k) w hfront
  rw [ahead_cons, someStatements_word hw, wordStatements_call] at hround
  obtain ⟨st, s₁, kind', rfl, hst, hf, hend⟩ := ended_eq_ok hround
  refine ⟨st, rfl, fun hbare => ?_⟩
  rw [hcall] at hst
  obtain ⟨e, s₂, he, hret⟩ := bind_eq_ok hst
  cases hret
  rcases hline.1.1.1.1 with hcallable | rfl
  · exact hcallable
  · cases hcallable : f.isCallable with
    | true => rfl
    | false =>
      obtain ⟨fs, vs, rfl, hfs, hvs⟩ := List.map_eq_append_iff.mp hus
      obtain ⟨o, vs, rfl, ho, hvs⟩ := List.map_eq_cons_iff.mp hvs
      obtain ⟨c, rfl, -⟩ := List.map_eq_singleton_iff.mp hvs
      rw [ahead_append] at he
      have hlex' := hlex.tail
      rw [ahead_append] at hlex'
      exact absurd hbare (misread_callee hcallable hfs ho hlex' he hf hend)

end Parser

/-! ## what is read back -/

/-- if the statement is read back first, its calls reprint -/
def StmtReadsBack (k : Nat) (st : Stmt) : Prop :=
  ∀ ts s lists s' rest, ts.map Token.kind = st.tokens → (ahead ts s).Lexical →
    statements k (ahead ts s) = .ok (lists, s') → Stmt.bares lists.flatten = st.bare :: rest →
      st.everyCall Expr.reprints k = true

def StmtsReadBack (k : Nat) (ss : List Stmt) : Prop :=
  ∀ ts s lists s', ts.map Token.kind = Stmt.allTokens ss → (ahead ts s).Lexical →
    statements k (ahead ts s) = .ok (lists, s') → Stmt.bares lists.flatten = Stmt.bares ss →
      Stmt.allEveryCall Expr.reprints k ss = true

def BlockReadsBack (k : Nat) (b : Block) : Prop :=
  ∀ ts s b' s', ts.map Token.kind = b.tokens → (ahead ts s).Lexical →
    block k (ahead ts s) = .ok (b', s') → b'.bare = b.bare → b.everyCall Expr.reprints k = true

/-- if the other block of a condition is read back, up to the end of the condition, its calls
reprint -/
def ElseReadsBack (k : Nat) (b : Block) : Prop :=
  ∀ ts s chain s₁ last s', ts.map Token.kind = b.elseTokens → s.EndsBlock → (ahead ts s).Lexical →
    elseIfs (nested k) (block k) (ahead ts s) = .ok (chain, s₁) →
    lastBranch (block k) s₁ = .ok (last, s') → (chained chain last).bare = b.bare →
      b.elseEveryCall Expr.reprints k = true

def MethodsReadBack (k : Nat) (ds : List FunctionDecl) : Prop :=
  ∀ ts s lists s', ts.map Token.kind = FunctionDecl.allTokens ds → (ahead ts s).Lexical →
    collect (members (block k)) (ahead ts s) = .ok (lists, s') →
    FunctionDecl.bares (lists.flatten.filterMap Member.method?) = FunctionDecl.bares ds →
      FunctionDecl.allEveryCall Expr.reprints k ds = true

/-! ## statements by their kind -/

/-- the first statement of a block is what the first round has read -/
theorem Parser.statements_first {k : Nat} {s s' : TokenStream} {lists : List (List Stmt)}
    {b : Stmt} {rest : List Stmt} {Q : Prop} (h : statements k s = .ok (lists, s'))
    (hb : Stmt.bares lists.flatten = b :: rest)
    (hround : ∀ {o s₁}, someStatements (nested k) (block k) s = .ok (o, s₁) →
      ∃ st, o = some [st] ∧ (st.bare = b → Q)) : Q := by
  rcases collect_eq_ok h with ⟨rfl, -⟩ | ⟨sts, lists', s₁, rfl, hsome⟩
  · cases hb
  · obtain ⟨st, hst, hQ⟩ := hround hsome
    cases hst
    obtain ⟨hbare, -⟩ := List.cons.inj hb
    exact hQ hbare

theorem stmtReadsBack_expr {l : Location} {e : Expr} {k : Nat} (h : e.accepted k = true) :
    StmtReadsBack k (.expr l e) := by
  intro ts s lists s' rest hts hlex hread hbares
  obtain ⟨us, vs, rfl, hus, hvs⟩ := List.map_eq_append_iff.mp hts
  obtain ⟨v, rfl, hv⟩ := List.map_eq_singleton_iff.mp hvs
  rw [ahead_append, ahead_cons v, ahead_nil] at hread hlex
  refine statements_first hread hbares ?_
  intro o s₁ hround
  cases htext : chunkText? e with
  | some text =>
    rw [Expr.statementTokens, htext] at hus
    obtain ⟨u, rfl, hu⟩ := List.map_eq_singleton_iff.mp hus
    rw [ahead_cons, ahead_nil, someStatements_chunk hu (isEmpty_of_chunkText? htext) hv s] at hround
    cases hround
    refine ⟨_, rfl, fun hbare => ?_⟩
    obtain ⟨_, _, _, rfl⟩ := Expr.of_bare_call_text (Stmt.expr.inj hbare).2.symm
    rw [Stmt.everyCall, Expr.reprints, htext]
    rfl
  | none =>
    rw [Expr.statementTokens, htext] at hus
    cases e with
    | call l₁ f args =>
      cases f with
      | path l₂ names => exact reprints_pathCall h htext hus hv hlex hround
      | _ =>
        obtain ⟨st, ho, hcallable⟩ :=
          reprints_explicitCall (fun _ _ h => by cases h) h hus hlex hround
        refine ⟨st, ho, fun hbare => ?_⟩
        simp only [Stmt.everyCall, Expr.reprints, htext]
        exact hcallable hbare
    | _ => simp [Expr.accepted, Expr.writesChunk, Expr.acceptedLine] at h

theorem Parser.function_readsBack {k : Nat} {kind : FunctionKind} {name : String}
    {ps : List Param} {body : Block} (hname : isName name = true)
    (hps : ps.all (fun p => isName p.name) = true) (hbody : BlockReadsBack k body)
    {l : Location} {ts : List Token}
    (hts : ts.map Token.kind = (FunctionDecl.mk l kind name ps body).tokens) {s s' : TokenStream}
    (hlex : (ahead ts s).Lexical) {d : FunctionDecl}
    (h : function (block k) kind (ahead ts s) = .ok (d, s'))
    (hd : d.bare = (FunctionDecl.mk l kind name ps body).bare) :
    body.everyCall Expr.reprints k = true := by
  obtain ⟨us, vs, rfl, hus, hvs⟩ := List.map_eq_append_iff.mp hts
  obtain ⟨vs, ws, rfl, hvs', -⟩ := List.map_eq_append_iff.mp hvs
  rw [ahead_append, ahead_append] at h hlex
  obtain ⟨loc, ps', -, hfun⟩ := function_ahead (block k) kind hname hps hus (ahead vs (ahead ws s))
  rw [hfun] at h
  obtain ⟨b, s₁, hb, hrest⟩ := bind_eq_ok h
  obtain ⟨_, s₂, -, hrest⟩ := bind_eq_ok hrest
  obtain ⟨_, s₃, -, hret⟩ := bind_eq_ok hrest
  cases hret
  exact hbody _ _ _ _ hvs' hlex.of_ahead hb (FunctionDecl.mk.inj hd).2.2.2.2

theorem stmtReadsBack_function {k : Nat} {l : Location} {kind : FunctionKind} {name : String}
    {ps : List Param} {body : Block} (hname : isName name = true)
    (hps : ps.all (fun p => isName p.name) = true) (hbody : BlockReadsBack k body) :
    StmtReadsBack k (.function ⟨l, kind, name, ps, body⟩) := by
  intro ts s lists s' rest hts hlex hread hbares
  refine statements_first hread hbares ?_
  intro o s₁ hround
  obtain ⟨t, us, rfl, ht, -⟩ := List.map_eq_cons_iff.mp hts
  rw [ahead_cons, someStatements_word ht] at hround
  have hfun : ∃ d s₂, o = some [.function d] ∧
      function (block k) kind (ahead (t :: us) s) = .ok (d, s₂) := by
    cases kind with
    | function =>
      obtain ⟨d, s₂, hd, hret⟩ := bind_eq_ok hround
      cases hret
      exact ⟨d, _, rfl, hd⟩
    | sub =>
      obtain ⟨d, s₂, hd, hret⟩ := bind_eq_ok hround
      cases hret
      exact ⟨d, _, rfl, hd⟩
  obtain ⟨d, s₂, rfl, hd⟩ := hfun
  refine ⟨_, rfl, fun hbare => ?_⟩
  exact function_readsBack hname hps hbody hts hlex hd (Stmt.function.inj hbare)

/-! ## classes -/

theorem Parser.filterMap_method?_fields (fields : List Dim) :
    (fields.map fun f => [Member.field f]).flatten.filterMap Member.method? = [] := by
  induction fields with
  | nil => rfl
  | cons f fs ih => exact ih

theorem Parser.filterMap_method?_cons (d : FunctionDecl) (lists : List (List Member)) :
    ([Member.method d] :: lists).flatten.filterMap Member.method?
      = d :: lists.flatten.filterMap Member.method? := rfl

theorem stmtReadsBack_class {k : Nat} {l : Location} {name : String} {fields : List Dim}
    {methods : List FunctionDecl} (hname : isName name = true)
    (hfields : fields.all (fun f => isName f.name) = true) (hmethods : MethodsReadBack k methods) :
    StmtReadsBack k (.class ⟨l, name, fields, methods⟩) := by
  intro ts s lists s' rest hts hlex hread hbares
  refine statements_first hread hbares ?_
  intro o s₁ hround
  obtain ⟨t, us, rfl, ht, hus⟩ := List.map_eq_cons_iff.mp hts
  obtain ⟨n, vs, rfl, hn, hvs⟩ := List.map_eq_cons_iff.mp hus
  obtain ⟨c, ws, rfl, hcolon, hws⟩ := List.map_eq_cons_iff.mp hvs
  obtain ⟨fs, ws, rfl, hfs, hws'⟩ := List.map_eq_append_iff.mp hws
  obtain ⟨ms, es, rfl, hms, -⟩ := List.map_eq_append_iff.mp hws'
  rw [ahead_cons, ahead_cons, ahead_cons, ahead_append, ahead_append] at hround hlex
  rw [someStatements_word ht] at hround
  obtain ⟨d, s₂, hd, hret⟩ := bind_eq_ok hround
  cases hret
  refine ⟨_, rfl, fun hbare => ?_⟩
  replace hd := (classDecl_ahead (block k) hname hn hcolon _).symm.trans hd
  obtain ⟨lists', s₃, hlists, hrest⟩ := bind_eq_ok hd
  obtain ⟨_, s₄, -, hrest⟩ := bind_eq_ok hrest
  obtain ⟨_, s₅, -, hret⟩ := bind_eq_ok hrest
  cases hret
  obtain ⟨fields', -, hrounds⟩ := rounds_fields (block k) hfields hfs (ahead ms (ahead es s))
  rw [hrounds] at hlists
  obtain ⟨lists₂, s₆, hlists₂, rfl, -⟩ := map_eq_ok hlists
  have hbares := (ClassDecl.mk.inj (Stmt.class.inj hbare)).2.2.2
  rw [List.flatten_append, List.filterMap_append, filterMap_method?_fields,
    List.nil_append] at hbares
  exact hmethods _ _ _ _ hms hlex.tail.tail.tail.of_ahead hlists₂ hbares

theorem Stmt.printsCall_of_accepted {k : Nat} {st : Stmt}
    (h : st.everyCall Expr.accepted k = true) (hr : st.everyCall Expr.reprints k = true) :
    st.everyCall Expr.printsCall k = true := by
  refine Stmt.everyCall_rel (r := Eq) (fun hk => by rw [hk]) ?_ rfl st h hr
  rintro k _ e rfl he hre
  exact Expr.printsCall_of_accepted he hre

theorem Block.printsCall_of_accepted {k : Nat} {b : Block}
    (h : b.everyCall Expr.accepted k = true) (hr : b.everyCall Expr.reprints k = true) :
    b.everyCall Expr.printsCall k = true :=
  Block.everyCall_imp Expr.printsCall_of_accepted h hr

theorem methodsReadBack_cons {k : Nat} {l : Location} {kind : FunctionKind} {name : String}
    {ps : List Param} {body : Block} {ds : List FunctionDecl} (hname : isName name = true)
    (hps : ps.all (fun p => isName p.name) = true) (hw : body.wellFormed k = true)
    (hc : body.everyCall Expr.accepted k = true) (hbody : BlockReadsBack k body)
    (hds : MethodsReadBack k ds) : MethodsReadBack k (⟨l, kind, name, ps, body⟩ :: ds) := by
  intro ts s lists s' hts hlex hread hbares
  obtain ⟨us, vs, rfl, hus, hvs⟩ := List.map_eq_append_iff.mp hts
  have hus' := hus
  obtain ⟨t, ws, rfl, ht, -⟩ := List.map_eq_cons_iff.mp hus'
  rw [ahead_append] at hread hlex
  rw [ahead_cons] at hread
  have hback : body.everyCall Expr.reprints k = true := by
    rcases collect_eq_ok hread with ⟨rfl, -⟩ | ⟨ms, lists', s₁, rfl, hsome⟩
    · cases hbares
    · rw [members_function kind ht] at hsome
      obtain ⟨d, s₂, hd, hret⟩ := bind_eq_ok hsome
      cases hret
      rw [filterMap_method?_cons, FunctionDecl.bares, FunctionDecl.bares] at hbares
      exact function_readsBack hname hps hbody hus hlex hd (List.cons.inj hbares).1
  -- the method has been read back, so the others are read from their tokens
  obtain ⟨d, -, hd⟩ := function_read hname hps
    (Block.read body hw (Block.printsCall_of_accepted hc hback)) hus (ahead vs s)
  have hround := (members_function kind ht _).trans (bind_of_ok hd)
  rw [collect_of_some hround] at hread
  · obtain ⟨lists', s₁, hlists', rfl, -⟩ := map_eq_ok hread
    rw [filterMap_method?_cons, FunctionDecl.bares, FunctionDecl.bares] at hbares
    have hrest := hds _ _ _ _ hvs hlex.of_ahead hlists' (List.cons.inj hbares).2
    rw [FunctionDecl.allEveryCall, FunctionDecl.everyCall, hback, hrest]
    rfl
  · rw [size_report, size_ahead ws]
    omega

/-! ## conditions -/

theorem Parser.branch_readsBack {k : Nat} {c : Expr} {t : Block} (hc : c.fits k = true)
    (ht : BlockReadsBack k t) {cs bs : List Token} {h n : Token}
    (hcs : cs.map Token.kind = c.tokens) (hthen : h.kind = .word "then")
    (hn : n.kind = .symbol ':') (hbs : bs.map Token.kind = t.tokens) {s s' : TokenStream}
    (hlex : (ahead cs (((ahead bs s).report (.ok n)).report (.ok h))).Lexical)
    {r : Expr × Block} (hread : branch (nested k) (block k)
      (ahead cs (((ahead bs s).report (.ok n)).report (.ok h))) = .ok (r, s'))
    (hbare : r.2.bare = t.bare) : t.everyCall Expr.reprints k = true := by
  obtain ⟨c', -, hbranch⟩ := branch_ahead (block k) hc hcs hthen ((ahead bs s).report (.ok n))
  rw [hbranch] at hread
  obtain ⟨b, s₁, hb, hret⟩ := bind_eq_ok hread
  cases hret
  cases k with
  | zero => simp [Expr.fits] at hc
  | succ k =>
    rw [block_colon hn] at hb
    obtain ⟨b', s₂, hb', rfl, -⟩ := map_eq_ok hb
    obtain ⟨l, ss⟩ := b'
    exact ht _ _ _ _ hbs hlex.of_ahead.tail.tail hb' hbare

section

variable {k : Nat} {c : Expr} {t e : Block} (hcond : c.fits k = true)
  (hw : t.wellFormed k = true) (hc : t.everyCall Expr.accepted k = true)
  (ht : BlockReadsBack k t) (he : ElseReadsBack k e)

include hcond hw hc ht he

theorem stmtReadsBack_cond (l : Location) : StmtReadsBack k (.cond l c t e) := by
  intro ts s lists s' rest hts hlex hread hbares
  refine statements_first hread hbares ?_
  intro o s₁ hround
  obtain ⟨i, h, n, cs, bs, us, hi, hcs, hthen, hn, hbs, hus, hahead⟩ := ahead_branch hts
  obtain ⟨es, us, rfl, hes, hus⟩ := List.map_eq_append_iff.mp hus
  rw [hahead, ahead_append] at hround hlex
  rw [someStatements_if hi] at hround
  obtain ⟨st, s₂, hst, hret⟩ := bind_eq_ok hround
  cases hret
  refine ⟨st, rfl, fun hbare => ?_⟩
  obtain ⟨r, s₃, hbranch, hrest⟩ := bind_eq_ok hst
  obtain ⟨chain, s₄, hchain, hrest⟩ := bind_eq_ok hrest
  obtain ⟨last, s₅, hlast, hret⟩ := bind_eq_ok hrest
  cases hret
  obtain ⟨-, -, hthenBare, helseBare⟩ := Stmt.cond.inj hbare
  have hback := branch_readsBack hcond ht hcs hthen hn hbs hlex.tail hbranch hthenBare
  -- the first branch has been read back, so the rest of the condition is read from its tokens
  have hend := endsBlock_lastLine hus s
  obtain ⟨t', -, ht'⟩ := Block.read t hw (Block.printsCall_of_accepted hc hback) hbs
    (Block.endsBlock_else hes hend)
  obtain ⟨c', t'', -, -, hbranch'⟩ := branch_read hcond hcs hthen hn ht'
  rw [hbranch'] at hbranch
  cases hbranch
  have hrest := he _ _ _ _ _ _ hes hend hlex.tail.of_ahead.tail.tail.of_ahead hchain hlast helseBare
  rw [Stmt.everyCall, hback, hrest]
  rfl

theorem elseReadsBack_cond (l l' : Location) : ElseReadsBack k ⟨l, [.cond l' c t e]⟩ := by
  intro ts s chain s₁ last s' hts hend hlex hchain hlast hbare
  obtain ⟨i, h, n, cs, bs, es, hi, hcs, hthen, hn, hbs, hes, hahead⟩ := ahead_branch hts
  rw [hahead] at hchain hlex
  unfold elseIfs at hchain
  have hback : t.everyCall Expr.reprints k = true := by
    rcases collect_eq_ok hchain with ⟨rfl, hnone⟩ | ⟨r, chain', s₂, rfl, hsome⟩
    · rw [elseIf_report hi] at hnone
      obtain ⟨r, s₂, -, hret⟩ := bind_eq_ok hnone
      cases hret
    · rw [elseIf_report hi] at hsome
      obtain ⟨r, s₂, hbranch, hret⟩ := bind_eq_ok hsome
      cases hret
      have hcondBare := (List.cons.inj (Block.mk.inj hbare).2).1
      obtain ⟨-, -, hthenBare, -⟩ := Stmt.cond.inj hcondBare
      exact branch_readsBack hcond ht hcs hthen hn hbs hlex.tail hbranch hthenBare
  obtain ⟨t', -, ht'⟩ := Block.read t hw (Block.printsCall_of_accepted hc hback) hbs
    (Block.endsBlock_else hes hend)
  obtain ⟨c', t'', -, -, hbranch⟩ := branch_read hcond hcs hthen hn ht'
  have hround := (elseIf_report hi _).trans (bind_of_ok hbranch)
  rw [repeated_eq, collect_of_some hround] at hchain
  · obtain ⟨chain', s₂, hchain', rfl, rfl⟩ := map_eq_ok hchain
    have hcondBare := (List.cons.inj (Block.mk.inj hbare).2).1
    obtain ⟨-, -, -, helseBare⟩ := Stmt.cond.inj hcondBare
    have hrest := he _ _ _ _ _ _ hes hend hlex.tail.of_ahead.tail.tail.of_ahead hchain' hlast
      helseBare
    rw [Block.elseEveryCall, hback, hrest]
    rfl
  · rw [size_report, size_ahead cs, size_report, size_report, size_ahead bs]
    omega

end

/-! ## blocks -/

theorem stmtsReadBack_cons {k : Nat} {st : Stmt} {ss : List Stmt} (hw : st.wellFormed k = true)
    (hc : st.everyCall Expr.accepted k = true) (hst : StmtReadsBack k st)
    (hss : StmtsReadBack k ss) : StmtsReadBack k (st :: ss) := by
  intro ts s lists s' hts hlex hread hbares
  obtain ⟨us, vs, rfl, hus, hvs⟩ := List.map_eq_append_iff.mp hts
  rw [ahead_append] at hread hlex
  have hback := hst _ _ _ _ _ hus hlex hread hbares
  -- the statement has been read back, so the others are read from their tokens
  obtain ⟨lists₁, hlists₁, hrounds⟩ :=
    Stmt.read st hw (Stmt.printsCall_of_accepted hc hback) hus (ahead vs s)
  have hread' : ((lists₁ ++ ·) <$> statements k) (ahead vs s) = .ok (lists, s') :=
    hrounds.symm.trans hread
  obtain ⟨lists₂, s₂, hlists₂, rfl, -⟩ := map_eq_ok hread'
  rw [List.flatten_append, Stmt.bares_append, hlists₁] at hbares
  have hrest := hss _ _ _ _ hvs hlex.of_ahead hlists₂ (List.cons.inj hbares).2
  rw [Stmt.allEveryCall, hback, hrest]
  rfl

theorem blockReadsBack_of_stmts {k : Nat} {ss : List Stmt} (h : StmtsReadBack k ss)
    (l : Location) : BlockReadsBack (k + 1) ⟨l, ss⟩ := by
  intro ts s b' s' hts hlex hread hbare
  obtain ⟨t, -, hrest⟩ := peek_bind_eq_ok hread
  obtain ⟨lists, s₁, hlists, hret⟩ := bind_eq_ok hrest
  cases hret
  exact h _ _ _ _ hts hlex hlists (Block.mk.inj hbare).2

theorem elseReadsBack_block {k : Nat} {l : Location} {st : Stmt} {ss : List Stmt}
    (hcond : Block.isCondition ⟨l, st :: ss⟩ = false)
    (h : BlockReadsBack (k + 1) ⟨l, st :: ss⟩) : ElseReadsBack (k + 1) ⟨l, st :: ss⟩ := by
  intro ts s chain s₁ last s' hts hend hlex hchain hlast hbare
  rw [Block.elseEveryCall_of_not_isCondition _ (k + 1) hcond]
  rw [Block.elseTokens_of_not_isCondition hcond] at hts
  obtain ⟨i, us, rfl, hi, hus⟩ := List.map_eq_cons_iff.mp hts
  obtain ⟨n, us, rfl, hn, hus'⟩ := List.map_eq_cons_iff.mp hus
  rw [ahead_cons, ahead_cons] at hchain hlex
  rw [elseIfs_of_front (front_report i _) (by rw [hi]; decide)] at hchain
  cases hchain
  rw [lastBranch_else hi] at hlast
  obtain ⟨b', s₂, hb', hrest⟩ := bind_eq_ok hlast
  obtain ⟨_, s₃, -, hrest⟩ := bind_eq_ok hrest
  obtain ⟨_, s₄, -, hret⟩ := bind_eq_ok hrest
  cases hret
  rw [block_colon hn] at hb'
  obtain ⟨⟨l', ss'⟩, s₅, hb'', rfl, -⟩ := map_eq_ok hb'
  exact h _ _ _ _ hus' hlex.tail.tail hb'' hbare

mutual
theorem Stmt.readsBack : ∀ (st : Stmt) {k : Nat}, st.wellFormed k = true →
    st.everyCall Expr.accepted k = true → StmtReadsBack k st
  | .function ⟨_, _, _, _, body⟩, k, hw, hc => by
    simp only [Stmt.wellFormed, FunctionDecl.wellFormed, Bool.and_eq_true] at hw
    exact stmtReadsBack_function hw.1.1 hw.1.2 (Block.readsBack body hw.2 hc)
  | .class ⟨_, _, _, methods⟩, k, hw, hc => by
    simp only [Stmt.wellFormed, ClassDecl.wellFormed, Bool.and_eq_true] at hw
    exact stmtReadsBack_class hw.1.1 hw.1.2 (FunctionDecl.readsBack_all methods hw.2 hc)
  | .dim _, _, _, _ => fun _ _ _ _ _ _ _ _ _ => rfl
  | .assign .., _, _, _ => fun _ _ _ _ _ _ _ _ _ => rfl
  | .cond l c t e, k, hw, hc => by
    simp only [Stmt.wellFormed, Stmt.everyCall, Bool.and_eq_true] at hw hc
    exact stmtReadsBack_cond hw.1.1 hw.1.2 hc.1 (Block.readsBack t hw.1.2 hc.1)
      (Block.readsBack_else e hw.2 hc.2) l
  | .expr .., _, _, hc => stmtReadsBack_expr hc
  | .optionExplicit _, _, _, _ => fun _ _ _ _ _ _ _ _ _ => rfl
  | .exit .., _, _, _ => fun _ _ _ _ _ _ _ _ _ => rfl

theorem Stmt.readsBack_all : ∀ (ss : List Stmt) {k : Nat}, Stmt.allWellFormed k ss = true →
    Stmt.allEveryCall Expr.accepted k ss = true → StmtsReadBack k ss
  | [], _, _, _ => fun _ _ _ _ _ _ _ _ => rfl
  | st :: ss, k, hw, hc => by
    simp only [Stmt.allWellFormed, Stmt.allEveryCall, Bool.and_eq_true] at hw hc
    exact stmtsReadBack_cons hw.1 hc.1 (Stmt.readsBack st hw.1 hc.1)
      (Stmt.readsBack_all ss hw.2 hc.2)

/-- **A block that is read back from its tokens has calls that reprint only.** -/
theorem Block.readsBack : ∀ (b : Block) {k : Nat}, b.wellFormed k = true →
    b.everyCall Expr.accepted k = true → BlockReadsBack k b
  | ⟨l, ss⟩, k, hw, hc => by
    cases k with
    | zero => cases hw
    | succ k => exact blockReadsBack_of_stmts (Stmt.readsBack_all ss hw hc) l

theorem Block.readsBack_else : ∀ (b : Block) {k : Nat}, b.elseWellFormed k = true →
    b.elseEveryCall Expr.accepted k = true → ElseReadsBack k b
  | ⟨_, []⟩, _, _, _ => fun _ _ _ _ _ _ _ _ _ _ _ _ => rfl
  | ⟨l, st :: ss⟩, k, hw, hc => by
    cases hcond : Block.isCondition ⟨l, st :: ss⟩ with
    | true =>
      match st, ss, hcond with
      | .cond l' c t e, [], _ =>
        simp only [Block.elseWellFormed, Block.elseEveryCall, Bool.and_eq_true] at hw hc
        exact elseReadsBack_cond hw.1.1 hw.1.2 hc.1 (Block.readsBack t hw.1.2 hc.1)
          (Block.readsBack_else e hw.2 hc.2) l l'
    | false =>
      rw [Block.elseWellFormed_of_not_isCondition k hcond] at hw
      rw [Block.elseEveryCall_of_not_isCondition _ k hcond] at hc
      obtain ⟨k, rfl⟩ := Block.exists_succ_of_wellFormed hw
      exact elseReadsBack_block hcond
        (blockReadsBack_of_stmts (Stmt.readsBack_all (st :: ss) hw hc) l)

theorem FunctionDecl.readsBack_all : ∀ (ds : List FunctionDecl) {k : Nat},
    FunctionDecl.allWellFormed k ds = true → FunctionDecl.allEveryCall Expr.accepted k ds = true →
      MethodsReadBack k ds
  | [], _, _, _ => fun _ _ _ _ _ _ _ _ => rfl
  | ⟨_, _, _, _, body⟩ :: ds, k, hw, hc => by
    simp only [FunctionDecl.allWellFormed, FunctionDecl.allEveryCall, FunctionDecl.wellFormed,
      FunctionDecl.everyCall, Bool.and_eq_true] at hw hc
    exact methodsReadBack_cons hw.1.1.1 hw.1.1.2 hw.1.2 hc.1 (Block.readsBack body hw.1.2 hc.1)
      (FunctionDecl.readsBack_all ds hw.2 hc.2)
end

end PageScript
