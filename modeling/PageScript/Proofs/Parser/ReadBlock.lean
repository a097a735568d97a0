import PageScript.Proofs.Parser.ReadStatement

/-!
# Reading the tokens of a block

The tokens of a printable block, in front of a word that ends the block or the end of the input,
are read as that block (`Block.read`).  The statements of a block are read one after the other, so
what is read of a statement is said about the rounds of a repetition: the tokens of the statement
take some rounds, and all other rounds follow (`StmtRead`).  For each kind of statement there is a
lemma that takes the reading of its parts; `Block.read` puts them together.
-/

namespace PageScript

open TokenStream

/-- a block ends in front of this token -/
def TokenKind.endsBlock : TokenKind → Bool
  | .word w => ["end", "else", "elseif"].contains (Text.fold w)
  | .endOfInput => true
  | _ => false

def TokenStream.EndsBlock (s : TokenStream) : Prop :=
  ∃ kind, s.front = some kind ∧ kind.endsBlock = true

theorem TokenStream.EndsBlock.front {s : TokenStream} (h : s.EndsBlock) :
    ∃ kind, s.front = some kind := by
  obtain ⟨kind, hf, -⟩ := h
  exact ⟨kind, hf⟩

theorem TokenStream.front_ahead_of_front (ts : List Token) {s : TokenStream}
    (hs : ∃ kind, s.front = some kind) : ∃ kind, (ahead ts s).front = some kind := by
  cases ts with
  | nil => exact hs
  | cons t ts => exact ⟨t.kind, rfl⟩

namespace Parser

variable {s s' : TokenStream} {inner : Nested Parser} {blk : Parser Block} {k : Nat}

/-! ## rounds of a repetition -/

variable {α : Type} {item : Parser (Option α)}

/-- the repetition finds these results first, and then what it finds further on -/
def Rounds (item : Parser (Option α)) (s : TokenStream) (as : List α) (s' : TokenStream) : Prop :=
  collect item s = ((as ++ ·) <$> collect item) s'

theorem Rounds.refl (item : Parser (Option α)) (s : TokenStream) : Rounds item s [] s := by
  show collect item s = (fun x => ([] ++ x.1, x.2)) <$> collect item s
  cases collect item s with
  | error e => rfl
  | ok r => rfl

theorem Rounds.round {a : α} {as : List α} {s₁ : TokenStream} (h : item s = .ok (some a, s₁))
    (hs : s₁.size < s.size) (hr : Rounds item s₁ as s') : Rounds item s (a :: as) s' := by
  show collect item s = (fun x => (a :: as ++ x.1, x.2)) <$> collect item s'
  rw [collect_of_some h hs]
  show (fun x => (a :: x.1, x.2)) <$> collect item s₁ = _
  rw [show collect item s₁ = (fun x => (as ++ x.1, x.2)) <$> collect item s' from hr]
  cases collect item s' with
  | error e => rfl
  | ok r => rfl

theorem Rounds.single {a : α} (h : item s = .ok (some a, s')) (hs : s'.size < s.size) :
    Rounds item s [a] s' := .round h hs (.refl item s')

theorem Rounds.trans {as bs : List α} {s₁ : TokenStream} (h₁ : Rounds item s as s₁)
    (h₂ : Rounds item s₁ bs s') : Rounds item s (as ++ bs) s' := by
  show collect item s = (fun x => (as ++ bs ++ x.1, x.2)) <$> collect item s'
  rw [show collect item s = (fun x => (as ++ x.1, x.2)) <$> collect item s₁ from h₁,
    show collect item s₁ = (fun x => (bs ++ x.1, x.2)) <$> collect item s' from h₂]
  cases collect item s' with
  | error e => rfl
  | ok r => simp [Functor.map, Except.map]

/-- the repetition is over behind these results -/
theorem Rounds.done {as : List α} (h : Rounds item s as s') (hnone : item s' = .ok (none, s')) :
    collect item s = .ok (as, s') := by
  rw [h, map_of_ok _ (collect_of_none hnone), List.append_nil]

/-! ## the ends of blocks -/

theorem someStatements_of_endsBlock (h : s.EndsBlock) :
    someStatements inner blk s = .ok (none, s) := by
  obtain ⟨kind, hf, hk⟩ := h
  obtain ⟨t, rfl, hp⟩ := peek_of_front hf
  unfold someStatements
  rw [lift_bind_of_ok hp]
  cases ht : t.kind with
  | word w =>
    rw [ht] at hk
    simp only [TokenKind.endsBlock, List.contains_iff_mem, List.mem_cons, List.not_mem_nil,
      or_false] at hk
    simp only [wordStatements]
    rcases hk with h | h | h
    · rw [h]
      rfl
    · rw [h]
      rfl
    · rw [h]
      rfl
  | endOfInput => rfl
  | _ =>
    rw [ht] at hk
    cases hk

theorem endsBlock_word {t : Token} {w : String} (ht : t.kind = .word w)
    (hw : (TokenKind.word w).endsBlock = true) (s : TokenStream) :
    (s.report (.ok t)).EndsBlock := ⟨t.kind, rfl, by rw [ht]; exact hw⟩

/-- the last line of a definition or a condition -/
abbrev lastLine (word : String) : List TokenKind := [.word "end", .word word, .symbol ':']

section

variable {us : List Token} {word : String} (hus : us.map Token.kind = lastLine word)

include hus

theorem exists_lastLine : ∃ t us', us = t :: us' ∧ t.kind = .word "end" := by
  obtain ⟨t, us', rfl, ht, -⟩ := List.map_eq_cons_iff.mp hus
  exact ⟨t, us', rfl, ht⟩

theorem endsBlock_lastLine (s : TokenStream) : (ahead us s).EndsBlock := by
  obtain ⟨t, us', rfl, ht⟩ := exists_lastLine hus
  exact endsBlock_word ht (by decide) _

/-- the last line is taken, and the rest goes on behind it -/
theorem lastLine_ahead {β : Type} (p : Parser β) (s : TokenStream) :
    (expectEnd word >>= fun _ => endOfStatement >>= fun _ => p) (ahead us s) = p s := by
  obtain ⟨t, us, rfl, ht, hus⟩ := List.map_eq_cons_iff.mp hus
  obtain ⟨u, us, rfl, hu, hus⟩ := List.map_eq_cons_iff.mp hus
  obtain ⟨v, rfl, hv⟩ := List.map_eq_singleton_iff.mp hus
  have hend := expectEnd_report ht hu (Text.sameWord_refl _) (s.report (.ok v))
  exact (bind_of_ok hend).trans (bind_of_ok (endOfStatement_report hv s))

end

abbrev statements (k : Nat) : Parser (List (List Stmt)) :=
  collect (someStatements (nested k) (block k))

/-- a block is its statements, up to a place where it ends -/
theorem block_of_rounds {lists : List (List Stmt)}
    (h : Rounds (someStatements (nested k) (block k)) s lists s') (hs : s'.EndsBlock)
    (hf : ∃ kind, s.front = some kind) :
    ∃ loc, block (k + 1) s = .ok (⟨loc, lists.flatten⟩, s') := by
  obtain ⟨kind, hf⟩ := hf
  obtain ⟨t, -, hp⟩ := peek_of_front hf
  refine ⟨t.location, ?_⟩
  rw [block_succ, bind_of_ok hp, bind_of_ok (h.done (someStatements_of_endsBlock hs))]
  rfl

theorem block_of_error {e : ParseError}
    (h : someStatements (nested k) (block k) s = .error e) (hf : ∃ kind, s.front = some kind) :
    block (k + 1) s = .error e := by
  obtain ⟨kind, hf⟩ := hf
  obtain ⟨t, -, hp⟩ := peek_of_front hf
  rw [block_succ, bind_of_ok hp]
  exact bind_of_error (collect_of_error h)

/-- the end of a line in front of a block belongs to the block -/
theorem block_colon {t : Token} (ht : t.kind = .symbol ':') (k : Nat) (s : TokenStream) :
    block (k + 1) (s.report (.ok t))
      = ((fun b => ⟨t.location, b.statements⟩) <$> block (k + 1)) s := by
  have hround : someStatements (nested k) (block k) (s.report (.ok t)) = .ok (some [], s) :=
    someStatements_colon ht s
  have hlt : s.size < (s.report (.ok t)).size := Nat.lt_succ_self _
  have hleft : block (k + 1) (s.report (.ok t))
      = (statements k >>= fun lists => pure ⟨t.location, lists.flatten⟩) s := by
    rw [block_succ, bind_of_ok (peek_report t s), collect_bind_of_some hround hlt]
    rfl
  rw [hleft]
  show (statements k s >>= fun x => Except.ok (Block.mk t.location x.1.flatten, x.2))
    = (fun x => (Block.mk t.location x.1.statements, x.2)) <$> block (k + 1) s
  cases hp : peek s with
  | error e =>
    have h1 : statements k s = .error e := by
      apply collect_of_error
      unfold someStatements
      exact bind_of_error hp
    have h2 : block (k + 1) s = .error e := by
      rw [block_succ]
      exact bind_of_error hp
    rw [h1, h2]
    rfl
  | ok r =>
    obtain ⟨u, s₁⟩ := r
    obtain ⟨rfl, -⟩ := peek_eq_ok hp
    have h2 : block (k + 1) s₁
        = (statements k >>= fun lists => pure ⟨u.location, lists.flatten⟩) s₁ := by
      rw [block_succ]
      exact bind_of_ok hp
    rw [h2]
    show _ = (fun x => (Block.mk t.location x.1.statements, x.2)) <$>
      (statements k s₁ >>= fun x => Except.ok (Block.mk u.location x.1.flatten, x.2))
    cases statements k s₁ with
    | error e => rfl
    | ok r => rfl

/-! ## the branches of a condition -/

theorem stops_then {t : Token} (ht : t.kind = .word "then") (s : TokenStream) :
    (s.report (.ok t)).Stops precedence := ⟨t.kind, rfl, by rw [ht]; decide⟩

theorem branch_ahead (blk : Parser Block) {c : Expr} (hc : c.fits k = true) {ts : List Token}
    {t : Token} (hts : ts.map Token.kind = c.tokens) (ht : t.kind = .word "then")
    (s : TokenStream) :
    ∃ c', c'.bare = c.bare ∧
      branch (nested k) blk (ahead ts (s.report (.ok t))) = (blk >>= fun b => pure (c', b)) s := by
  obtain ⟨c', hc', hread⟩ := reads_of_fits hc hts (stops_then ht s)
  refine ⟨c', hc', ?_⟩
  unfold branch
  rw [bind_of_ok hread, lift_bind_of_ok (expectKeyword_report ht (Text.sameWord_refl _) s)]

theorem someStatements_if {t : Token} (ht : t.kind = .word "if") (s : TokenStream) :
    someStatements inner blk (s.report (.ok t))
      = (condition inner blk t.location >>= fun st => pure (some [st])) s := by
  rw [someStatements_word ht]
  exact bind_of_ok (next_report t s)

theorem elseIf_report {t : Token} (ht : t.kind = .word "elseif") (s : TokenStream) :
    elseIf inner blk (s.report (.ok t))
      = (branch inner blk >>= fun b => pure (some (t.location, b))) s := by
  unfold elseIf
  rw [lift_bind_of_ok (peek_report t s), isKeyword_of_kind ht, Text.sameWord_refl]
  rfl

theorem elseIf_of_front {kind : TokenKind} (hf : s.front = some kind)
    (hk : kind.isKeyword "elseif" = false) : elseIf inner blk s = .ok (none, s) := by
  obtain ⟨t, rfl, hp⟩ := peek_of_front hf
  unfold elseIf
  rw [lift_bind_of_ok hp, show t.isKeyword "elseif" = false from hk]
  rfl

theorem elseIfs_of_front {kind : TokenKind} (hf : s.front = some kind)
    (hk : kind.isKeyword "elseif" = false) : elseIfs inner blk s = .ok ([], s) :=
  collect_of_none (elseIf_of_front hf hk)

theorem lastBranch_else {t : Token} (ht : t.kind = .word "else") (s : TokenStream) :
    lastBranch blk (s.report (.ok t))
      = (blk >>= fun b => expectEnd "if" >>= fun _ => endOfStatement >>= fun _ => pure b) s := by
  unfold lastBranch
  rw [lift_bind_of_ok (peek_report t s), isKeyword_of_kind ht, Text.sameWord_refl]
  rfl

theorem lastBranch_end {us : List Token} (hus : us.map Token.kind = lastLine "if")
    (s : TokenStream) : ∃ loc, lastBranch blk (ahead us s) = .ok (⟨loc, []⟩, s) := by
  obtain ⟨t, us', rfl, ht⟩ := exists_lastLine hus
  refine ⟨t.location, ?_⟩
  unfold lastBranch
  rw [ahead_cons, lift_bind_of_ok (peek_report t _), isKeyword_of_kind ht,
    isKeyword_of_kind ht]
  exact lastLine_ahead hus (pure _) s

/-! ## members of a class -/

theorem members_function (kind : FunctionKind) {t : Token} (ht : t.kind = .word kind.keyword)
    (s : TokenStream) :
    members blk (s.report (.ok t))
      = (function blk kind >>= fun d => pure (some [.method d])) (s.report (.ok t)) := by
  unfold members
  rw [lift_bind_of_ok (peek_report t s), isSymbol_eq_false ht (by simp)]
  simp only [isKeyword_of_kind ht]
  cases kind with
  | function => rfl
  | sub => rfl

theorem members_dim {t u v : Token} {name : String} (hname : isName name = true)
    (ht : t.kind = .word "dim") (hu : u.kind = .word name) (hv : v.kind = .symbol ':')
    (s : TokenStream) :
    members blk (ahead [t, u, v] s) = .ok (some [.field ⟨u.location, name⟩], s) := by
  have hfields : (fields : Parser (List Member)) ((s.report (.ok v)).report (.ok u))
      = .ok ([.field ⟨u.location, name⟩], s) := by
    unfold fields
    rw [bind_of_ok (names_report hname hu hv s), lift_bind_of_ok (endOfStatement_report hv s)]
    rfl
  unfold members
  rw [ahead_cons, lift_bind_of_ok (peek_report t _), isSymbol_eq_false ht (by simp)]
  simp only [isKeyword_of_kind ht]
  exact (bind_of_ok (next_report t _)).trans ((bind_of_ok hfields).trans rfl)

theorem members_end {us : List Token} (hus : us.map Token.kind = lastLine "class")
    (s : TokenStream) : members blk (ahead us s) = .ok (none, ahead us s) := by
  obtain ⟨t, us', rfl, ht⟩ := exists_lastLine hus
  unfold members
  rw [ahead_cons, lift_bind_of_ok (peek_report t _), isSymbol_eq_false ht (by simp)]
  simp only [isKeyword_of_kind ht]
  rfl

theorem classDecl_ahead (blk : Parser Block) {t n c : Token} {name : String}
    (hname : isName name = true) (hn : n.kind = .word name) (hc : c.kind = .symbol ':')
    (s : TokenStream) :
    classDecl blk (ahead [t, n, c] s) = (collect (members blk) >>= fun ms =>
      expectEnd "class" >>= fun _ => endOfStatement >>= fun _ =>
        pure ⟨t.location, name, ms.flatten.filterMap Member.field?,
          ms.flatten.filterMap Member.method?⟩) s := by
  simp only [isName, Bool.and_eq_true, Bool.not_eq_true'] at hname
  unfold classDecl
  rw [ahead_cons, ahead_cons, lift_bind_of_ok (next_report t _),
    lift_bind_of_ok (expectName_report hn hname.2 .className _)]
  exact bind_of_ok (endOfStatement_report hc s)

/-- the fields of a class, one line each -/
theorem rounds_fields (blk : Parser Block) {fields : List Dim}
    (h : fields.all (fun f => isName f.name) = true) {ts : List Token}
    (hts : ts.map Token.kind
      = fields.flatMap fun f => [TokenKind.word "dim", .word f.name, .symbol ':'])
    (s : TokenStream) :
    ∃ fields' : List Dim, fields'.map Dim.bare = fields.map Dim.bare ∧
      Rounds (members blk) (ahead ts s) (fields'.map fun f => [.field f]) s := by
  induction fields generalizing ts with
  | nil =>
    obtain rfl := List.map_eq_nil_iff.mp hts
    exact ⟨[], rfl, .refl _ _⟩
  | cons f fields ih =>
    simp only [List.all_cons, Bool.and_eq_true] at h
    obtain ⟨t, us, rfl, ht, hus⟩ := List.map_eq_cons_iff.mp hts
    obtain ⟨u, vs, rfl, hu, hvs⟩ := List.map_eq_cons_iff.mp hus
    obtain ⟨v, ws, rfl, hv, hws⟩ := List.map_eq_cons_iff.mp hvs
    obtain ⟨fields', hfields', hrounds⟩ := ih h.2 hws
    refine ⟨⟨u.location, f.name⟩ :: fields', ?_, ?_⟩
    · rw [List.map_cons, List.map_cons, hfields']
      rfl
    · refine .round (members_dim h.1 ht hu hv (ahead ws s)) ?_ hrounds
      rw [size_ahead, size_ahead]
      simp only [List.length_cons]
      omega

end Parser

open PageScript.Parser

/-! ## what is read -/

/-- the tokens of a statement take some rounds of reading a block -/
def StmtRead (k : Nat) (st : Stmt) : Prop :=
  ∀ {ts}, ts.map Token.kind = st.tokens → ∀ s, ∃ lists : List (List Stmt),
    Stmt.bares lists.flatten = [st.bare] ∧
      Rounds (someStatements (nested k) (block k)) (ahead ts s) lists s

def StmtsRead (k : Nat) (ss : List Stmt) : Prop :=
  ∀ {ts}, ts.map Token.kind = Stmt.allTokens ss → ∀ s, ∃ lists : List (List Stmt),
    Stmt.bares lists.flatten = Stmt.bares ss ∧
      Rounds (someStatements (nested k) (block k)) (ahead ts s) lists s

/-- the tokens of a block are read as the block, in front of a place where a block ends -/
def BlockRead (k : Nat) (b : Block) : Prop :=
  ∀ {ts}, ts.map Token.kind = b.tokens → ∀ {s : TokenStream}, s.EndsBlock →
    ∃ b', b'.bare = b.bare ∧ block k (ahead ts s) = .ok (b', s)

/-- the tokens of the other block of a condition are read as a chain of branches and a last one,
in front of the last line of the condition -/
def ElseRead (k : Nat) (b : Block) : Prop :=
  ∀ {ts}, ts.map Token.kind = b.elseTokens → ∀ {us}, us.map Token.kind = lastLine "if" →
    ∀ s, ∃ chain last s₁, (chained chain last).bare = b.bare ∧
      elseIfs (nested k) (block k) (ahead ts (ahead us s)) = .ok (chain, s₁) ∧
      lastBranch (block k) s₁ = .ok (last, s)

/-- the tokens of methods take some rounds of reading the members of a class -/
def MethodsRead (k : Nat) (ds : List FunctionDecl) : Prop :=
  ∀ {ts}, ts.map Token.kind = FunctionDecl.allTokens ds → ∀ s, ∃ ds' : List FunctionDecl,
    FunctionDecl.bares ds' = FunctionDecl.bares ds ∧
      Rounds (members (block k)) (ahead ts s) (ds'.map fun d => [.method d]) s

/-! ## statements by their kind -/

theorem StmtRead.of_round {k : Nat} {st : Stmt} (htokens : st.tokens ≠ [])
    (h : ∀ {ts}, ts.map Token.kind = st.tokens → ∀ s, ∃ st', st'.bare = st.bare ∧
      someStatements (nested k) (block k) (ahead ts s) = .ok (some [st'], s)) : StmtRead k st := by
  intro ts hts s
  obtain ⟨st', hst', hread⟩ := h hts s
  refine ⟨[[st']], ?_, .single hread ?_⟩
  · rw [← hst']
    rfl
  · have : ts ≠ [] := fun h => htokens (by rw [← hts, h]; rfl)
    have := List.length_pos_iff.mpr this
    rw [size_ahead]
    omega

theorem Stmt.bares_append (as bs : List Stmt) :
    Stmt.bares (as ++ bs) = Stmt.bares as ++ Stmt.bares bs := by
  rw [Stmt.bares_eq_map, Stmt.bares_eq_map, Stmt.bares_eq_map, List.map_append]

theorem Expr.read_statement {l : Location} {e : Expr} {k : Nat} (h : e.printsCall k = true) :
    StmtRead k (.expr l e) := by
  intro ts hts s
  obtain ⟨us, vs, rfl, hus, hvs⟩ := List.map_eq_append_iff.mp hts
  obtain ⟨v, rfl, hv⟩ := List.map_eq_singleton_iff.mp hvs
  rw [ahead_append]
  cases htext : chunkText? e with
  | some text =>
    -- a chunk is one round, and the end of the line behind it another
    rw [Expr.statementTokens, htext] at hus
    obtain ⟨u, rfl, hu⟩ := List.map_eq_singleton_iff.mp hus
    rw [Expr.printsCall, htext] at h
    obtain ⟨l₁, l₂, l₃, rfl⟩ := Expr.eq_write_of_chunkText? htext h
    refine ⟨[[writeStatement u.location (.literal u.location (.string text))], []], rfl, ?_⟩
    refine .round (someStatements_chunk hu (isEmpty_of_chunkText? htext) hv s) ?_
      (.single (someStatements_colon hv s) ?_)
    · exact Nat.lt_succ_self _
    · exact Nat.lt_succ_self _
  | none =>
    rw [Expr.statementTokens, htext] at hus
    rw [Expr.printsCall, htext] at h
    have hround : ∃ st, st.bare = .expr default e.bare ∧
        someStatements (nested k) (block k) (ahead us (s.report (.ok v))) = .ok (some [st], s) := by
      cases e with
      | call l₁ f args =>
        cases f with
        | path l₂ names => exact read_pathCall h hus hv s
        | _ => exact read_explicitCall h hus hv s
      | _ => cases h
    obtain ⟨st, hst, hread⟩ := hround
    refine ⟨[[st]], ?_, .single hread ?_⟩
    · show [st.bare] = _
      rw [hst]
      rfl
    · rw [size_ahead, size_ahead]
      exact Nat.lt_of_lt_of_le (Nat.lt_succ_self _) (by simp; omega)

theorem Parser.function_read {k : Nat} {kind : FunctionKind} {name : String} {ps : List Param}
    {body : Block} (hname : isName name = true)
    (hps : ps.all (fun p => isName p.name) = true) (hbody : BlockRead k body)
    {l : Location} {ts : List Token}
    (hts : ts.map Token.kind = (FunctionDecl.mk l kind name ps body).tokens) (s : TokenStream) :
    ∃ d, d.bare = (FunctionDecl.mk l kind name ps body).bare ∧
      function (block k) kind (ahead ts s) = .ok (d, s) := by
  obtain ⟨us, vs, rfl, hus, hvs⟩ := List.map_eq_append_iff.mp hts
  obtain ⟨vs, ws, rfl, hvs', hws⟩ := List.map_eq_append_iff.mp hvs
  obtain ⟨b, hb, hread⟩ := hbody hvs' (endsBlock_lastLine hws s)
  obtain ⟨loc, ps', hps', hfun⟩ := function_ahead (block k) kind hname hps hus
    (ahead vs (ahead ws s))
  refine ⟨⟨loc, kind, name, ps', b⟩, ?_, ?_⟩
  · rw [FunctionDecl.bare, FunctionDecl.bare, hps', hb]
  · rw [ahead_append, ahead_append, hfun, bind_of_ok hread]
    exact lastLine_ahead hws (pure _) s

theorem stmtRead_function {k : Nat} {kind : FunctionKind} {name : String} {ps : List Param}
    {body : Block} (hname : isName name = true)
    (hps : ps.all (fun p => isName p.name) = true) (hbody : BlockRead k body) (l : Location) :
    StmtRead k (.function ⟨l, kind, name, ps, body⟩) := by
  apply StmtRead.of_round
  · simp [Stmt.tokens, FunctionDecl.tokens, headTokens]
  intro ts hts s
  obtain ⟨d, hd, hread⟩ := function_read hname hps hbody hts s
  refine ⟨.function d, by rw [Stmt.bare, hd]; rfl, ?_⟩
  obtain ⟨t, us, rfl, ht, -⟩ := List.map_eq_cons_iff.mp hts
  rw [ahead_cons, someStatements_word ht]
  cases kind with
  | function => exact (bind_of_ok hread).trans rfl
  | sub => exact (bind_of_ok hread).trans rfl

/-! ## classes -/

theorem Parser.filterMap_field? (fields : List Dim) (methods : List FunctionDecl) :
    ((fields.map fun f => [Member.field f]) ++
      methods.map fun d => [Member.method d]).flatten.filterMap Member.field? = fields := by
  induction fields with
  | nil =>
    induction methods with
    | nil => rfl
    | cons d ds ih => exact ih
  | cons f fs ih => exact congrArg (f :: ·) ih

theorem Parser.filterMap_method? (fields : List Dim) (methods : List FunctionDecl) :
    ((fields.map fun f => [Member.field f]) ++
      methods.map fun d => [Member.method d]).flatten.filterMap Member.method? = methods := by
  induction fields with
  | nil =>
    induction methods with
    | nil => rfl
    | cons d ds ih => exact congrArg (d :: ·) ih
  | cons f fs ih => exact ih

theorem Parser.classDecl_read {k : Nat} {name : String} {fields : List Dim}
    {methods : List FunctionDecl} (hname : isName name = true)
    (hfields : fields.all (fun f => isName f.name) = true) (hmethods : MethodsRead k methods)
    {l : Location} {ts : List Token}
    (hts : ts.map Token.kind = (ClassDecl.mk l name fields methods).tokens) (s : TokenStream) :
    ∃ d, d.bare = (ClassDecl.mk l name fields methods).bare ∧
      classDecl (block k) (ahead ts s) = .ok (d, s) := by
  obtain ⟨t, us, rfl, -, hus⟩ := List.map_eq_cons_iff.mp hts
  obtain ⟨n, vs, rfl, hn, hvs⟩ := List.map_eq_cons_iff.mp hus
  obtain ⟨c, ws, rfl, hcolon, hws⟩ := List.map_eq_cons_iff.mp hvs
  obtain ⟨fs, ws, rfl, hfs, hws'⟩ := List.map_eq_append_iff.mp hws
  obtain ⟨ms, es, rfl, hms, hes⟩ := List.map_eq_append_iff.mp hws'
  obtain ⟨fields', hfields', hrounds⟩ := rounds_fields (block k) hfields hfs
    (ahead ms (ahead es s))
  obtain ⟨methods', hmethods', hrounds'⟩ := hmethods hms (ahead es s)
  have hcollect := (hrounds.trans hrounds').done (members_end hes s)
  refine ⟨⟨t.location, name, fields', methods'⟩, ?_, ?_⟩
  · rw [ClassDecl.bare, ClassDecl.bare, hfields', hmethods']
  · rw [ahead_cons, ahead_cons, ahead_cons, ahead_append, ahead_append]
    refine (classDecl_ahead (block k) hname hn hcolon _).trans ((bind_of_ok hcollect).trans ?_)
    refine (lastLine_ahead hes (pure _) s).trans ?_
    rw [filterMap_field?, filterMap_method?]
    rfl

theorem stmtRead_class {k : Nat} {name : String} {fields : List Dim} {methods : List FunctionDecl}
    (hname : isName name = true) (hfields : fields.all (fun f => isName f.name) = true)
    (hmethods : MethodsRead k methods) (l : Location) :
    StmtRead k (.class ⟨l, name, fields, methods⟩) := by
  apply StmtRead.of_round
  · simp [Stmt.tokens, ClassDecl.tokens]
  intro ts hts s
  obtain ⟨d, hd, hread⟩ := classDecl_read hname hfields hmethods hts s
  refine ⟨.class d, by rw [Stmt.bare, hd]; rfl, ?_⟩
  obtain ⟨t, us, rfl, ht, -⟩ := List.map_eq_cons_iff.mp hts
  rw [ahead_cons, someStatements_word ht]
  exact (bind_of_ok hread).trans rfl

theorem methodsRead_cons {k : Nat} {kind : FunctionKind} {name : String} {ps : List Param}
    {body : Block} {ds : List FunctionDecl} (hname : isName name = true)
    (hps : ps.all (fun p => isName p.name) = true) (hbody : BlockRead k body)
    (hds : MethodsRead k ds) (l : Location) : MethodsRead k (⟨l, kind, name, ps, body⟩ :: ds) := by
  intro ts hts s
  obtain ⟨us, vs, rfl, hus, hvs⟩ := List.map_eq_append_iff.mp hts
  obtain ⟨d, hd, hread⟩ := function_read hname hps hbody hus (ahead vs s)
  obtain ⟨ds', hds', hrounds⟩ := hds hvs s
  refine ⟨d :: ds', by rw [FunctionDecl.bares, FunctionDecl.bares, hd, hds'], ?_⟩
  obtain ⟨t, us, rfl, ht, -⟩ := List.map_eq_cons_iff.mp hus
  have hround : members (block k) (ahead (t :: us) (ahead vs s))
      = .ok (some [.method d], ahead vs s) := by
    rw [ahead_cons] at hread ⊢
    rw [members_function kind ht]
    exact (bind_of_ok hread).trans rfl
  rw [ahead_append]
  refine .round hround ?_ hrounds
  rw [ahead_cons, size_report, size_ahead us]
  omega

/-! ## conditions -/

theorem Block.endsBlock_else {b : Block} {ts : List Token}
    (hts : ts.map Token.kind = b.elseTokens) {s : TokenStream} (hs : s.EndsBlock) :
    (ahead ts s).EndsBlock := by
  obtain ⟨l, ss⟩ := b
  cases ss with
  | nil =>
    obtain rfl := List.map_eq_nil_iff.mp hts
    exact hs
  | cons st ss =>
    cases h : Block.isCondition ⟨l, st :: ss⟩ with
    | true =>
      match st, ss, h with
      | .cond l' c t e, [], _ =>
        obtain ⟨w, ws, rfl, hw, -⟩ := List.map_eq_cons_iff.mp hts
        exact endsBlock_word hw (by decide) _
    | false =>
      rw [Block.elseTokens_of_not_isCondition h] at hts
      obtain ⟨w, ws, rfl, hw, -⟩ := List.map_eq_cons_iff.mp hts
      exact endsBlock_word hw (by decide) _

theorem Parser.block_colon_of_ok {k : Nat} {t : Token} (ht : t.kind = .symbol ':')
    {s s' : TokenStream} {b : Block} (h : block (k + 1) s = .ok (b, s')) :
    ∃ b', b'.bare = b.bare ∧ block (k + 1) (s.report (.ok t)) = .ok (b', s') := by
  refine ⟨⟨t.location, b.statements⟩, ?_, ?_⟩
  · obtain ⟨l, ss⟩ := b
    rfl
  · rw [block_colon ht]
    exact map_of_ok _ h

theorem Parser.branch_read {k : Nat} {c : Expr} {t : Block} (hc : c.fits k = true)
    {cs : List Token} {h n : Token} (hcs : cs.map Token.kind = c.tokens)
    (hthen : h.kind = .word "then") (hn : n.kind = .symbol ':') {s s' : TokenStream}
    (hblock : block k s = .ok (t, s')) :
    ∃ c' t', c'.bare = c.bare ∧ t'.bare = t.bare ∧
      branch (nested k) (block k) (ahead cs ((s.report (.ok n)).report (.ok h)))
        = .ok ((c', t'), s') := by
  cases k with
  | zero => simp [Expr.fits] at hc
  | succ k =>
    obtain ⟨t', ht', hcolon⟩ := block_colon_of_ok hn hblock
    obtain ⟨c', hc', hbranch⟩ := branch_ahead (block (k + 1)) hc hcs hthen (s.report (.ok n))
    rw [bind_of_ok hcolon] at hbranch
    exact ⟨c', t', hc', ht', hbranch⟩

theorem TokenStream.ahead_branch {ts : List Token} {w : String} {c b rest : List TokenKind}
    (hts : ts.map Token.kind
      = .word w :: (c ++ (.word "then" :: .symbol ':' :: (b ++ rest)))) :
    ∃ (i h n : Token) (cs bs es : List Token), i.kind = .word w ∧ cs.map Token.kind = c ∧
      h.kind = .word "then" ∧ n.kind = .symbol ':' ∧ bs.map Token.kind = b ∧
      es.map Token.kind = rest ∧ ∀ s, ahead ts s
        = (ahead cs (((ahead bs (ahead es s)).report (.ok n)).report (.ok h))).report (.ok i) := by
  obtain ⟨i, us, rfl, hi, hus⟩ := List.map_eq_cons_iff.mp hts
  obtain ⟨cs, us, rfl, hcs, hus⟩ := List.map_eq_append_iff.mp hus
  obtain ⟨h, us, rfl, hthen, hus⟩ := List.map_eq_cons_iff.mp hus
  obtain ⟨n, us, rfl, hn, hus⟩ := List.map_eq_cons_iff.mp hus
  obtain ⟨bs, es, rfl, hbs, hes⟩ := List.map_eq_append_iff.mp hus
  refine ⟨i, h, n, cs, bs, es, hi, hcs, hthen, hn, hbs, hes, fun s => ?_⟩
  rw [ahead_cons, ahead_append, ahead_cons, ahead_cons, ahead_append]

theorem stmtRead_cond {k : Nat} {c : Expr} {t e : Block} (hc : c.fits k = true)
    (ht : BlockRead k t) (he : ElseRead k e) (l : Location) : StmtRead k (.cond l c t e) := by
  apply StmtRead.of_round
  · simp [Stmt.tokens]
  intro ts hts s
  obtain ⟨i, h, n, cs, bs, us, hi, hcs, hthen, hn, hbs, hus, hahead⟩ := ahead_branch hts
  obtain ⟨es, us, rfl, hes, hus⟩ := List.map_eq_append_iff.mp hus
  have hends := Block.endsBlock_else hes (endsBlock_lastLine hus s)
  obtain ⟨t', ht', hblock⟩ := ht hbs hends
  obtain ⟨c', t'', hc', ht'', hbranch⟩ := branch_read hc hcs hthen hn hblock
  obtain ⟨chain, last, s₁, hchain, helseIfs, hlast⟩ := he hes hus s
  refine ⟨.cond i.location c' t'' (chained chain last), ?_, ?_⟩
  · rw [Stmt.bare, Stmt.bare, hc', ht'', ht', hchain]
  · rw [hahead, ahead_append, someStatements_if hi]
    have hcond : condition (nested k) (block k) i.location
        (ahead cs (((ahead bs (ahead es (ahead us s))).report (.ok n)).report (.ok h)))
        = .ok (.cond i.location c' t'' (chained chain last), s) := by
      unfold condition
      rw [bind_of_ok hbranch]
      exact (bind_of_ok helseIfs).trans ((bind_of_ok hlast).trans rfl)
    exact (bind_of_ok hcond).trans rfl

theorem elseRead_nil (k : Nat) (l : Location) : ElseRead k ⟨l, []⟩ := by
  intro ts hts us hus s
  obtain rfl := List.map_eq_nil_iff.mp hts
  obtain ⟨loc, hlast⟩ := lastBranch_end hus s
  obtain ⟨t, us', rfl, ht⟩ := exists_lastLine hus
  refine ⟨[], ⟨loc, []⟩, ahead (t :: us') s, rfl, ?_, hlast⟩
  exact elseIfs_of_front (front_report t _) (by rw [ht]; decide)

/-- a condition behind `elseif` is a further branch -/
theorem elseRead_cond {k : Nat} {c : Expr} {t e : Block} (hc : c.fits k = true)
    (ht : BlockRead k t) (he : ElseRead k e) (l l' : Location) :
    ElseRead k ⟨l, [.cond l' c t e]⟩ := by
  intro ts hts us hus s
  obtain ⟨i, h, n, cs, bs, es, hi, hcs, hthen, hn, hbs, hes, hahead⟩ := ahead_branch hts
  have hends := Block.endsBlock_else hes (endsBlock_lastLine hus s)
  obtain ⟨t', ht', hblock⟩ := ht hbs hends
  obtain ⟨c', t'', hc', ht'', hbranch⟩ := branch_read hc hcs hthen hn hblock
  obtain ⟨chain, last, s₁, hchain, helseIfs, hlast⟩ := he hes hus s
  refine ⟨(i.location, c', t'') :: chain, last, s₁, ?_, ?_, hlast⟩
  · show Block.mk default [(Stmt.cond i.location c' t'' (chained chain last)).bare] = _
    rw [Stmt.bare, hc', ht'', ht', hchain]
    rfl
  · have hround := (elseIf_report hi _).trans (bind_of_ok hbranch)
    unfold elseIfs
    rw [hahead, repeated_eq, collect_of_some hround]
    · exact map_of_ok _ helseIfs
    · rw [size_report, size_ahead cs, size_report, size_report, size_ahead bs]
      omega

theorem elseRead_block {k : Nat} {l : Location} {st : Stmt} {ss : List Stmt}
    (hcond : Block.isCondition ⟨l, st :: ss⟩ = false)
    (h : BlockRead (k + 1) ⟨l, st :: ss⟩) : ElseRead (k + 1) ⟨l, st :: ss⟩ := by
  intro ts hts us hus s
  rw [Block.elseTokens_of_not_isCondition hcond] at hts
  obtain ⟨i, vs, rfl, hi, hvs⟩ := List.map_eq_cons_iff.mp hts
  obtain ⟨n, vs, rfl, hn, hvs⟩ := List.map_eq_cons_iff.mp hvs
  obtain ⟨b, hb, hread⟩ := h hvs (endsBlock_lastLine hus s)
  obtain ⟨b', hb', hcolon⟩ := block_colon_of_ok hn hread
  refine ⟨[], b', ahead (i :: n :: vs) (ahead us s), hb'.trans hb, ?_, ?_⟩
  · exact elseIfs_of_front (front_report i _) (by rw [hi]; decide)
  · rw [ahead_cons, ahead_cons, lastBranch_else hi, bind_of_ok hcolon]
    exact lastLine_ahead hus (pure b') s

/-! ## blocks -/

theorem stmtsRead_cons {k : Nat} {st : Stmt} {ss : List Stmt} (hst : StmtRead k st)
    (hss : StmtsRead k ss) : StmtsRead k (st :: ss) := by
  intro ts hts s
  obtain ⟨us, vs, rfl, hus, hvs⟩ := List.map_eq_append_iff.mp hts
  obtain ⟨lists, hlists, hrounds⟩ := hst hus (ahead vs s)
  obtain ⟨lists', hlists', hrounds'⟩ := hss hvs s
  refine ⟨lists ++ lists', ?_, ?_⟩
  · rw [List.flatten_append, Stmt.bares_append, hlists, hlists']
    rfl
  · rw [ahead_append]
    exact hrounds.trans hrounds'

theorem blockRead_of_stmts {k : Nat} {ss : List Stmt} (h : StmtsRead k ss) (l : Location) :
    BlockRead (k + 1) ⟨l, ss⟩ := by
  intro ts hts s hs
  obtain ⟨lists, hlists, hrounds⟩ := h hts s
  obtain ⟨loc, hread⟩ := block_of_rounds hrounds hs (front_ahead_of_front ts hs.front)
  exact ⟨⟨loc, lists.flatten⟩, by rw [Block.bare, Block.bare, hlists], hread⟩

mutual
theorem Stmt.read : ∀ (st : Stmt) {k : Nat}, st.wellFormed k = true →
    st.everyCall Expr.printsCall k = true → StmtRead k st
  | .function ⟨l, _, _, _, body⟩, k, hw, hc => by
    simp only [Stmt.wellFormed, FunctionDecl.wellFormed, Bool.and_eq_true] at hw
    exact stmtRead_function hw.1.1 hw.1.2 (Block.read body hw.2 hc) l
  | .class ⟨l, _, _, methods⟩, k, hw, hc => by
    simp only [Stmt.wellFormed, ClassDecl.wellFormed, Bool.and_eq_true] at hw
    exact stmtRead_class hw.1.1 hw.1.2 (FunctionDecl.read_all methods hw.2 hc) l
  | .dim decl, k, hw, _ =>
    StmtRead.of_round (by simp [Stmt.tokens]) fun hts s => read_dim hw hts s
  | .assign l target value, k, hw, _ => by
    simp only [Stmt.wellFormed, Bool.and_eq_true] at hw
    exact StmtRead.of_round (by simp [Stmt.tokens]) fun hts s => read_assign hw.1 hw.2 hts s
  | .cond l c t e, k, hw, hc => by
    simp only [Stmt.wellFormed, Stmt.everyCall, Bool.and_eq_true] at hw hc
    exact stmtRead_cond hw.1.1 (Block.read t hw.1.2 hc.1) (Block.read_else e hw.2 hc.2) l
  | .expr l e, k, _, hc => Expr.read_statement hc
  | .optionExplicit l, k, _, _ =>
    StmtRead.of_round (by simp [Stmt.tokens]) fun hts s => read_optionExplicit hts s
  | .exit l kind, k, _, _ =>
    StmtRead.of_round (by simp [Stmt.tokens]) fun hts s => read_exit hts s

theorem Stmt.read_all : ∀ (ss : List Stmt) {k : Nat}, Stmt.allWellFormed k ss = true →
    Stmt.allEveryCall Expr.printsCall k ss = true → StmtsRead k ss
  | [], k, _, _ => fun hts s => by
    obtain rfl := List.map_eq_nil_iff.mp hts
    exact ⟨[], rfl, .refl _ _⟩
  | st :: ss, k, hw, hc => by
    simp only [Stmt.allWellFormed, Stmt.allEveryCall, Bool.and_eq_true] at hw hc
    exact stmtsRead_cons (Stmt.read st hw.1 hc.1) (Stmt.read_all ss hw.2 hc.2)

/-- **A printable block is read back from its tokens.** -/
theorem Block.read : ∀ (b : Block) {k : Nat}, b.wellFormed k = true →
    b.everyCall Expr.printsCall k = true → BlockRead k b
  | ⟨l, ss⟩, k, hw, hc => by
    cases k with
    | zero => cases hw
    | succ k => exact blockRead_of_stmts (Stmt.read_all ss hw hc) l

theorem Block.read_else : ∀ (b : Block) {k : Nat}, b.elseWellFormed k = true →
    b.elseEveryCall Expr.printsCall k = true → ElseRead k b
  | ⟨l, []⟩, k, _, _ => elseRead_nil k l
  | ⟨l, st :: ss⟩, k, hw, hc => by
    cases hcond : Block.isCondition ⟨l, st :: ss⟩ with
    | true =>
      match st, ss, hcond with
      | .cond l' c t e, [], _ =>
        simp only [Block.elseWellFormed, Block.elseEveryCall, Bool.and_eq_true] at hw hc
        exact elseRead_cond hw.1.1 (Block.read t hw.1.2 hc.1) (Block.read_else e hw.2 hc.2) l l'
    | false =>
      rw [Block.elseWellFormed_of_not_isCondition k hcond] at hw
      rw [Block.elseEveryCall_of_not_isCondition Expr.printsCall k hcond] at hc
      obtain ⟨k, rfl⟩ := Block.exists_succ_of_wellFormed hw
      exact elseRead_block hcond (blockRead_of_stmts (Stmt.read_all (st :: ss) hw hc) l)

theorem FunctionDecl.read_all : ∀ (ds : List FunctionDecl) {k : Nat},
    FunctionDecl.allWellFormed k ds = true →
    FunctionDecl.allEveryCall Expr.printsCall k ds = true → MethodsRead k ds
  | [], k, _, _ => fun hts s => by
    obtain rfl := List.map_eq_nil_iff.mp hts
    exact ⟨[], rfl, .refl _ _⟩
  | ⟨l, kind, name, ps, body⟩ :: ds, k, hw, hc => by
    simp only [FunctionDecl.allWellFormed, FunctionDecl.allEveryCall, FunctionDecl.wellFormed,
      FunctionDecl.everyCall, Bool.and_eq_true] at hw hc
    exact methodsRead_cons hw.1.1.1 hw.1.1.2 (Block.read body hw.1.2 hc.1)
      (FunctionDecl.read_all ds hw.2 hc.2) l
end

end PageScript
