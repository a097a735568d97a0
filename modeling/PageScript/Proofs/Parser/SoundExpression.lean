import PageScript.Proofs.Parser.ReadExpression
import PageScript.Program.OfText

/-!
# What an expression was read from

The token sequences that spell an expression are its tokens in order, with the keywords in any
letter case and with at most one comma behind the last argument of a call (`Expr.SpelledBy`).

A parser of expressions that succeeds has taken tokens that spell its result, and the result
respects the table of precedence (`Expr.Taken`).  On the levels of an expression this is carried by
two facts about the stream behind what has been read: none of the operators of these levels comes
next, and behind the operand of a `not` no operator comes at all.
-/

namespace PageScript

open TokenStream

/-! ## the token sequences of a tree -/

/-- the signs of an operator, or its word in any letter case -/
def BinaryOp.SpelledBy (op : BinaryOp) (ks : List TokenKind) : Prop :=
  ks = op.tokens ∨ ∃ kind word, ks = [kind] ∧ op.tokens = [word] ∧ kind.Alike word

mutual
/-- the tokens of an expression in order, with keywords in any letter case and with at most one
comma behind the last argument of a call -/
def Expr.SpelledBy : Expr → List TokenKind → Prop
  | .literal _ value, ks => ∃ kind, ks = [kind] ∧ kind.Alike value.token
  | .path _ names, ks => ks = pathTokens names
  | .binary _ op left right, ks =>
    ∃ as os bs, ks = as ++ (os ++ bs) ∧ left.SpelledBy as ∧ op.SpelledBy os ∧ right.SpelledBy bs
  | .unary _ .neg operand, ks => ∃ as, ks = .symbol '-' :: as ∧ operand.SpelledBy as
  | .unary _ .not operand, ks =>
    ∃ kind as, ks = kind :: as ∧ kind.Alike (.word "not") ∧ operand.SpelledBy as
  | .call _ callee args, ks =>
    ∃ as bs, ks = as ++ (.symbol '(' :: (bs ++ [.symbol ')'])) ∧ callee.SpelledBy as
      ∧ Expr.ArgsSpelledBy args bs
  | .new _ className, ks => ∃ kind, ks = [kind, .word className] ∧ kind.Alike (.word "new")
  | .paren _ inner, ks => ∃ as, ks = .symbol '(' :: (as ++ [.symbol ')']) ∧ inner.SpelledBy as

/-- arguments with commas between them -/
def Expr.ArgsSpelledBy : List Expr → List TokenKind → Prop
  | [], ks => ks = []
  | e :: es, ks => ∃ as bs, ks = as ++ bs ∧ e.SpelledBy as ∧ Expr.MoreSpelledBy es bs

/-- further arguments, each behind a comma; a comma may stand behind the last argument -/
def Expr.MoreSpelledBy : List Expr → List TokenKind → Prop
  | [], ks => ks = [] ∨ ks = [.symbol ',']
  | e :: es, ks =>
    ∃ as bs, ks = .symbol ',' :: (as ++ bs) ∧ e.SpelledBy as ∧ Expr.MoreSpelledBy es bs
end

/-- a comma in front of an argument list makes it a list of further arguments -/
theorem Expr.MoreSpelledBy.of_args {es : List Expr} {ks : List TokenKind}
    (h : Expr.ArgsSpelledBy es ks) : Expr.MoreSpelledBy es (.symbol ',' :: ks) := by
  cases es with
  | nil => exact .inr (congrArg _ h)
  | cons e es =>
    obtain ⟨as, bs, rfl, he, hes⟩ := h
    exact ⟨as, bs, rfl, he, hes⟩

mutual
/-- the tokens of an expression spell it -/
theorem Expr.spelledBy_tokens : ∀ e : Expr, e.SpelledBy e.tokens
  | .literal _ v => ⟨v.token, rfl, .refl _⟩
  | .path .. => rfl
  | .binary _ op left right =>
    ⟨left.tokens, op.tokens, right.tokens, rfl, Expr.spelledBy_tokens left, .inl rfl,
      Expr.spelledBy_tokens right⟩
  | .unary _ .neg operand => ⟨operand.tokens, rfl, Expr.spelledBy_tokens operand⟩
  | .unary _ .not operand =>
    ⟨.word "not", operand.tokens, rfl, .refl _, Expr.spelledBy_tokens operand⟩
  | .call _ callee args =>
    ⟨callee.tokens, Expr.argTokens args, rfl, Expr.spelledBy_tokens callee,
      Expr.spelledBy_argTokens args⟩
  | .new .. => ⟨.word "new", rfl, .refl _⟩
  | .paren _ inner => ⟨inner.tokens, rfl, Expr.spelledBy_tokens inner⟩

theorem Expr.spelledBy_argTokens : ∀ es : List Expr, Expr.ArgsSpelledBy es (Expr.argTokens es)
  | [] => rfl
  | e :: es =>
    ⟨e.tokens, Expr.moreTokens es, rfl, Expr.spelledBy_tokens e, Expr.spelledBy_moreTokens es⟩

theorem Expr.spelledBy_moreTokens : ∀ es : List Expr, Expr.MoreSpelledBy es (Expr.moreTokens es)
  | [] => .inl rfl
  | e :: es =>
    ⟨e.tokens, Expr.moreTokens es, rfl, Expr.spelledBy_tokens e, Expr.spelledBy_moreTokens es⟩
end

theorem Expr.level_le (e : Expr) : e.level ≤ precedence.length := by
  cases e with
  | binary l op a b => exact Nat.le_of_lt (Parser.op_level_lt op)
  | _ => exact Nat.le_refl _

/-! ## streams behind an expression -/

/-- no operator of these groups comes next -/
def TokenStream.Ends (groups : List OperatorGroup) (s : TokenStream) : Prop :=
  ∀ kind, s.front = some kind → ∀ g ∈ groups, g.takes kind = false

theorem TokenStream.Lexical.of_ahead {ts : List Token} {s : TokenStream}
    (h : (ahead ts s).Lexical) : s.Lexical := by
  induction ts with
  | nil => exact h
  | cons t ts ih => exact ih h.tail

/-- what a parser has taken for an expression: tokens that spell it, where the expression binds
at least as tight as level `n` and its depth is below `k` -/
structure Expr.Taken (depth : Expr → Nat) (k n : Nat) (s : TokenStream) (e : Expr)
    (s' : TokenStream) : Prop where
  spelledBy : ∃ ts, s = ahead ts s' ∧ e.SpelledBy (ts.map Token.kind)
  spelled : e.spelled = true
  canonical : e.canonical = true
  level : n ≤ e.level
  depth_lt : depth e < k
  /-- behind the operand of a `not` no operator comes -/
  closed : e.isOpen = true → s'.Ends precedence
  shorter : s'.size < s.size

theorem Expr.Taken.lexical {depth : Expr → Nat} {k n : Nat} {s s' : TokenStream} {e : Expr}
    (h : e.Taken depth k n s s') (hs : s.Lexical) : s'.Lexical := by
  obtain ⟨ts, rfl, -⟩ := h.spelledBy
  exact hs.of_ahead

theorem Expr.Taken.mono {depth : Expr → Nat} {k n m : Nat} {s s' : TokenStream} {e : Expr}
    (h : e.Taken depth k n s s') (hm : m ≤ n) : e.Taken depth k m s s' :=
  { h with level := Nat.le_trans hm h.level }

namespace Parser

variable {s s₀ s₁ s' : TokenStream}

/-- what the parser takes is an expression with these bounds -/
def Takes (k n : Nat) (p : Parser Expr) : Prop :=
  ∀ {s e s'}, s.Lexical → p s = .ok (e, s') → e.Taken Expr.nesting k n s s'

/-! ## operators -/

theorem isNameStart_toLower {c : Char} (h : Scan.isNameStart c = true) :
    Scan.isNameStart c.toLower = true := by
  unfold Char.toLower
  split
  · next hu =>
    have hA : 65 ≤ c.toNat := hu.1
    have hZ : c.toNat ≤ 90 := hu.2
    have hval : (c.val + ('a'.val - 'A'.val)).toNat = c.toNat + 32 := by
      rw [UInt32.toNat_add]
      exact Nat.mod_eq_of_lt (show c.toNat + 32 < 2 ^ 32 by omega)
    rw [Scan.isNameStart_iff]
    refine .inr (.inl ?_)
    show 97 ≤ (c.val + ('a'.val - 'A'.val)).toNat ∧ (c.val + ('a'.val - 'A'.val)).toNat ≤ 122
    rw [hval]
    omega
  · exact h

/-- only the operators that are words are found by a word -/
theorem isWord_symbol {op : BinaryOp} {w : String} (hw : isWord w = true)
    (h : Text.sameWord op.symbol w = true) : isWord op.symbol = true := by
  have hstart : (Text.fold op.symbol).toList.head?.all Scan.isNameStart = true := by
    rw [(Text.sameWord_iff _ _).mp h, Text.toList_fold]
    unfold isWord at hw
    cases hl : w.toList with
    | nil =>
      rw [hl] at hw
      cases hw
    | cons d ds =>
      rw [hl, Bool.and_eq_true] at hw
      exact isNameStart_toLower hw.1
  revert hstart
  cases op <;> decide

theorem mem_of_keyword? {g : OperatorGroup} {w : String} {op : BinaryOp}
    (h : g.keyword? w = some op) : op ∈ g.operators ∧ Text.sameWord op.symbol w = true := by
  have hsame := List.find?_some h
  exact ⟨List.mem_of_find?_eq_some h, hsame⟩

theorem mem_of_symbol? {g : OperatorGroup} {cs : List Char} {op : BinaryOp}
    (h : g.symbol? (String.ofList cs) = some op) : op ∈ g.operators ∧ op.symbol.toList = cs := by
  have hsym := List.find?_some h
  rw [beq_iff_eq] at hsym
  exact ⟨List.mem_of_find?_eq_some h, by rw [hsym, String.toList_ofList]⟩

theorem groupSign_eq_ok {g : OperatorGroup} {sign : Char} {op : BinaryOp}
    (h : groupSign g sign s = .ok (op, s')) :
    op ∈ g.operators ∧ ((op.symbol.toList = [sign] ∧ s = s')
      ∨ ∃ t other, t.kind = .symbol other ∧ s = s'.report (.ok t)
          ∧ op.symbol.toList = [sign, other]) := by
  unfold groupSign at h
  obtain ⟨t, hf, hrest⟩ := peek_bind_eq_ok h
  rw [String.singleton_eq_ofList] at hrest
  cases ht : t.kind with
  | symbol other =>
    simp only [ht] at hrest
    cases hd : g.symbol? (String.ofList [sign, other]) with
    | some op' =>
      rw [hd] at hrest
      obtain ⟨u, s₂, hn, hret⟩ := bind_eq_ok hrest
      cases hret
      rw [ht] at hf
      obtain ⟨rfl, hu⟩ := next_of_front hn hf (by simp)
      exact ⟨(mem_of_symbol? hd).1, .inr ⟨u, other, hu, rfl, (mem_of_symbol? hd).2⟩⟩
    | none =>
      rw [hd] at hrest
      cases hs : g.symbol? (String.ofList [sign]) with
      | none =>
        rw [hs] at hrest
        cases hrest
      | some op' =>
        rw [hs] at hrest
        cases hrest
        exact ⟨(mem_of_symbol? hs).1, .inl ⟨(mem_of_symbol? hs).2, rfl⟩⟩
  | _ =>
    simp only [ht] at hrest
    cases hs : g.symbol? (String.ofList [sign]) with
    | none =>
      rw [hs] at hrest
      cases hrest
    | some op' =>
      rw [hs] at hrest
      cases hrest
      exact ⟨(mem_of_symbol? hs).1, .inl ⟨(mem_of_symbol? hs).2, rfl⟩⟩

/-- an operator that signs spell is no word -/
theorem tokens_of_signs {op : BinaryOp} {c : Char} {cs : List Char}
    (hc : Scan.isNameStart c = false) (h : op.symbol.toList = c :: cs) :
    op.tokens = (c :: cs).map .symbol := by
  have hw : ¬ isWord op.symbol = true := by
    unfold isWord
    rw [h]
    simp [hc]
  rw [BinaryOp.tokens, if_neg hw, h]

/-- looking for an operator of a group finds none and takes nothing, or takes the operator -/
theorem groupOperator_eq_ok {g : OperatorGroup} {r : Option (BinaryOp × Location)}
    (hs : s.Lexical) (h : groupOperator g s = .ok (r, s')) :
    ∃ kind, s.front = some kind ∧ ((r = none ∧ s' = s ∧ g.takes kind = false)
      ∨ ∃ op loc ts, r = some (op, loc) ∧ g.takes kind = true ∧ op ∈ g.operators
          ∧ s = ahead ts s' ∧ s'.size < s.size ∧ op.SpelledBy (ts.map Token.kind)) := by
  unfold groupOperator at h
  obtain ⟨t, hf, hrest⟩ := peek_bind_eq_ok h
  refine ⟨t.kind, hf, ?_⟩
  cases ht : t.kind with
  | word w =>
    simp only [ht] at hrest
    cases hk : g.keyword? w with
    | none =>
      rw [hk] at hrest
      cases hrest
      exact .inl ⟨rfl, rfl, by rw [OperatorGroup.takes, hk]; rfl⟩
    | some op =>
      rw [hk] at hrest
      obtain ⟨u, s₂, hn, hret⟩ := bind_eq_ok hrest
      cases hret
      rw [ht] at hf
      obtain ⟨rfl, hu⟩ := next_of_front hn hf (by simp)
      have hword : isWord w = true := by
        have := hs.head
        rw [hu] at this
        exact this
      obtain ⟨hmem, hsame⟩ := mem_of_keyword? hk
      refine .inr ⟨op, t.location, [u], rfl, by rw [OperatorGroup.takes, hk]; rfl,
        hmem, rfl, by rw [size_report]; omega, .inr ⟨u.kind, .word op.symbol,
          rfl, ?_, .inr ⟨w, op.symbol, hu, rfl, ?_⟩⟩⟩
      · rw [BinaryOp.tokens, if_pos (isWord_symbol hword hsame)]
      · rw [Text.sameWord_iff] at hsame ⊢
        exact hsame.symm
  | symbol c =>
    simp only [ht] at hrest
    cases hg : g.startsWith c with
    | false =>
      rw [hg] at hrest
      cases hrest
      exact .inl ⟨rfl, rfl, hg⟩
    | true =>
      rw [hg] at hrest
      obtain ⟨u, s₂, hn, hrest⟩ := bind_eq_ok hrest
      obtain ⟨op, s₃, hsign, hret⟩ := bind_eq_ok hrest
      cases hret
      rw [ht] at hf
      obtain ⟨rfl, hu⟩ := next_of_front hn hf (by simp)
      have hc : Scan.isNameStart c = false := by
        have := hs.head
        rw [hu] at this
        simpa [TokenKind.lexical] using this
      obtain ⟨hmem, ⟨hsym, rfl⟩ | ⟨v, d, hv, rfl, hsym⟩⟩ := groupSign_eq_ok hsign
      · refine .inr ⟨op, t.location, [u], rfl, hg, hmem, rfl, by rw [size_report]; omega, .inl ?_⟩
        rw [tokens_of_signs hc hsym, List.map_cons, hu]
        rfl
      · refine .inr ⟨op, t.location, [u, v], rfl, hg, hmem, rfl,
          by rw [size_report, size_report]; omega, .inl ?_⟩
        rw [tokens_of_signs hc hsym, List.map_cons, List.map_cons, hu, hv]
        rfl
  | _ =>
    simp only [ht] at hrest
    cases hrest
    exact .inl ⟨rfl, rfl, rfl⟩

/-- the operators of a group have its place in the table as their level -/
theorem level_of_mem {n : Nat} {g : OperatorGroup} {gs : List OperatorGroup}
    (hg : precedence.drop n = g :: gs) {op : BinaryOp} (hop : op ∈ g.operators) :
    op.level = n ∧ g ∈ precedence ∧ gs = precedence.drop (n + 1) := by
  have hlen : n < precedence.length := by
    apply Nat.lt_of_not_le
    intro hge
    rw [List.drop_eq_nil_of_le hge] at hg
    cases hg
  rw [List.drop_eq_getElem_cons hlen] at hg
  obtain ⟨rfl, rfl⟩ := List.cons.inj hg
  refine ⟨?_, List.getElem_mem hlen, rfl⟩
  have hall : ∀ i : Fin precedence.length, ∀ op ∈ (precedence.get i).operators, op.level = i := by
    decide
  exact hall ⟨n, hlen⟩ op hop

/-! ## levels -/

variable {depth : Expr → Nat} {k n : Nat} {e : Expr}

theorem Taken.binary {left right : Expr} {op : BinaryOp} {os : List Token} (loc : Location)
    (hdepth : ∀ loc op l r, depth (.binary loc op l r) = max (depth l) r.nesting)
    (hl : left.Taken depth k n s₀ s) (hopen : left.isOpen = false)
    (hos : s = ahead os s₁) (hop : op.SpelledBy (os.map Token.kind)) (hlevel : op.level = n)
    (hr : right.Taken Expr.nesting k (n + 1) s₁ s') :
    (Expr.binary loc op left right).Taken depth k n s₀ s' := by
  obtain ⟨as, rfl, has⟩ := hl.spelledBy
  obtain ⟨bs, rfl, hbs⟩ := hr.spelledBy
  subst hos
  refine ⟨⟨as ++ (os ++ bs), ?_, ?_⟩, ?_, ?_, ?_, ?_, hr.closed, ?_⟩
  · rw [ahead_append, ahead_append]
  · exact ⟨as.map Token.kind, os.map Token.kind, bs.map Token.kind, by simp, has, hop, hbs⟩
  · rw [Expr.spelled, hl.spelled, hr.spelled]
    rfl
  · have h1 : op.level ≤ left.level := hlevel ▸ hl.level
    have h2 : op.level < right.level := hlevel ▸ hr.level
    rw [Expr.canonical, hl.canonical, hr.canonical, hopen, decide_eq_true h1, decide_eq_true h2]
    rfl
  · exact Nat.le_of_eq hlevel.symm
  · rw [hdepth, Nat.max_lt]
    exact ⟨hl.depth_lt, hr.depth_lt⟩
  · have h1 := hl.shorter
    have h2 := hr.shorter
    simp only [size_ahead] at h1 h2 ⊢
    omega

theorem leftAssociated_taken {g : OperatorGroup} {o : Parser Expr}
    (hdepth : ∀ loc op l r, depth (.binary loc op l r) = max (depth l) r.nesting)
    (hg : precedence.drop n = g :: precedence.drop (n + 1))
    (ho : ∀ {s e s'}, s.Lexical → o s = .ok (e, s') →
      e.Taken Expr.nesting k (n + 1) s s' ∧ s'.Ends (precedence.drop (n + 1)))
    {tails : List (BinaryOp × Location × Expr)} (hc : collect (groupTail g o) s = .ok (tails, s')) :
    ∀ {left}, s.Lexical → left.Taken depth k n s₀ s → s.Ends (precedence.drop (n + 1)) →
      (leftAssociated left tails).Taken depth k n s₀ s' ∧ s'.Ends (precedence.drop n)
        ∧ s'.Lexical := by
  refine collect_induct (motive := fun tails s s' => ∀ {left}, s.Lexical →
    left.Taken depth k n s₀ s → s.Ends (precedence.drop (n + 1)) →
    (leftAssociated left tails).Taken depth k n s₀ s' ∧ s'.Ends (precedence.drop n)
      ∧ s'.Lexical) ?_ ?_ ?_ hc
  · intro s s' hitem left hs hl hends
    obtain ⟨r, s₁, hop, hret⟩ := bind_eq_ok hitem
    obtain ⟨kind, hf, ⟨rfl, rfl, hk⟩ | ⟨op, loc, ts, rfl, -⟩⟩ := groupOperator_eq_ok hs hop
    · cases hret
      refine ⟨hl, ?_, hs⟩
      rw [hg]
      intro kind' hf' g' hg'
      rcases List.mem_cons.mp hg' with rfl | hmem
      · rw [hf] at hf'
        obtain rfl := Option.some.inj hf'
        exact hk
      · exact hends kind' hf' g' hmem
    · obtain ⟨_, _, _, h⟩ := bind_eq_ok hret
      cases h
  · intro s s₁ s' a tails hitem hsize hcollect ih left hs hl hends
    obtain ⟨r, s₂, hop, hret⟩ := bind_eq_ok hitem
    obtain ⟨kind, hf, ⟨rfl, rfl, hk⟩ | ⟨op, loc, ts, rfl, htakes, hmem, rfl, -, hspell⟩⟩ :=
      groupOperator_eq_ok hs hop
    · cases hret
    · obtain ⟨right, s₃, hright, h⟩ := bind_eq_ok hret
      cases h
      obtain ⟨hr, hends'⟩ := ho hs.of_ahead hright
      obtain ⟨hlevel, hgmem, -⟩ := level_of_mem hg hmem
      -- behind an open operand no operator can have come
      have hopen : left.isOpen = false := by
        cases hleft : left.isOpen with
        | false => rfl
        | true =>
          have := hl.closed hleft kind hf g hgmem
          rw [htakes] at this
          cases this
      exact ih (hr.lexical hs.of_ahead) (Taken.binary loc hdepth hl hopen rfl hspell hlevel hr)
        hends'
  · intro s s' a hitem hsize left hs hl hends
    obtain ⟨r, s₂, hop, hret⟩ := bind_eq_ok hitem
    obtain ⟨kind, hf, ⟨rfl, rfl, hk⟩ | ⟨op, loc, ts, rfl, -, -, rfl, -, -⟩⟩ :=
      groupOperator_eq_ok hs hop
    · cases hret
    · obtain ⟨right, s₃, hright, h⟩ := bind_eq_ok hret
      cases h
      have h1 := (ho hs.of_ahead hright).1.shorter
      rw [size_ahead] at hsize
      omega

/-- **Levels take expressions of their groups.**  The leftmost operand may have been taken before,
from a stream `s₀`. -/
theorem levels_taken {first o : Parser Expr}
    (hdepth : ∀ loc op l r, depth (.binary loc op l r) = max (depth l) r.nesting)
    (ho : Takes k precedence.length o) {s₀ s : TokenStream}
    (hfirst : ∀ {e s'}, first s = .ok (e, s') →
      e.Taken depth k precedence.length s₀ s' ∧ s'.Lexical)
    (hn : n ≤ precedence.length)
    (h : levels (precedence.drop n) first o s = .ok (e, s')) :
    e.Taken depth k n s₀ s' ∧ s'.Ends (precedence.drop n) ∧ s'.Lexical := by
  induction hd : precedence.length - n generalizing n depth first s₀ s e s' with
  | zero =>
    obtain rfl : n = precedence.length := by omega
    rw [List.drop_length] at h ⊢
    refine ⟨(hfirst h).1, ?_, (hfirst h).2⟩
    intro _ _ g hg
    cases hg
  | succ d ih =>
    have hlen : n < precedence.length := by omega
    have hdrop := List.drop_eq_getElem_cons hlen
    rw [hdrop, levels_cons] at h
    obtain ⟨left, s₁, hleft, hrest⟩ := bind_eq_ok h
    obtain ⟨tails, s₂, htails, hret⟩ := bind_eq_ok hrest
    cases hret
    obtain ⟨hl, hends, hs₁⟩ := ih hdepth hfirst (by omega) hleft (by omega)
    refine leftAssociated_taken hdepth hdrop ?_ htails hs₁ (hl.mono (Nat.le_succ n)) hends
    intro s e s' hs ho'
    have hoperand : ∀ {e s'}, o s = .ok (e, s') →
        e.Taken Expr.nesting k precedence.length s s' ∧ s'.Lexical :=
      fun h => ⟨ho hs h, (ho hs h).lexical hs⟩
    obtain ⟨htaken, hends', -⟩ := ih (fun _ _ _ _ => rfl) hoperand (by omega) ho' (by omega)
    exact ⟨htaken, hends'⟩

/-! ## operands -/

/-- what stands one level further in takes expressions of a smaller nesting -/
structure NestedTakes (k : Nat) (inner : Nested Parser) : Prop where
  expression : ∀ {s e s'}, s.Lexical → inner.expression s = .ok (e, s') →
    e.Taken Expr.nesting k 0 s s' ∧ s'.Ends precedence
  factor : ∀ loc, Takes k precedence.length (inner.factor loc)

variable {inner : Nested Parser}

theorem member_eq_ok {r : Option String} (h : member s = .ok (r, s')) :
    (r = none ∧ s' = s) ∨ ∃ w t u, r = some w ∧ t.kind = .symbol '.' ∧ u.kind = .word w
      ∧ s = (s'.report (.ok u)).report (.ok t) := by
  obtain ⟨b, s₁, heat, hrest⟩ := bind_eq_ok h
  obtain ⟨rfl, t, ht, rfl⟩ | ⟨rfl, rfl, -⟩ := eatSymbol_eq_ok heat
  · obtain ⟨w, s₂, hmember, hret⟩ := bind_eq_ok hrest
    cases hret
    obtain ⟨u, hu, rfl⟩ := expectMember_eq_ok hmember
    exact .inr ⟨w, t, u, rfl, ht, hu, rfl⟩
  · cases hrest
    exact .inl ⟨rfl, rfl⟩

theorem members_taken {members : List String} (h : collect member s = .ok (members, s'))
    (hs : s.Lexical) :
    members.all isWord = true ∧ ∃ ts, s = ahead ts s'
      ∧ ts.map Token.kind = members.flatMap fun m => [.symbol '.', .word m] := by
  revert hs
  refine collect_induct (motive := fun members s s' => s.Lexical → members.all isWord = true
    ∧ ∃ ts, s = ahead ts s' ∧ ts.map Token.kind = members.flatMap fun m => [.symbol '.', .word m])
    ?_ ?_ ?_ h
  · intro s s' hitem hs
    obtain ⟨-, rfl⟩ | ⟨w, t, u, hr, -⟩ := member_eq_ok hitem
    · exact ⟨rfl, [], rfl, rfl⟩
    · cases hr
  · intro s s₁ s' a as hitem _ _ ih hs
    obtain ⟨hr, -⟩ | ⟨w, t, u, hr, ht, hu, rfl⟩ := member_eq_ok hitem
    · cases hr
    · cases hr
      obtain ⟨hall, ts, rfl, hts⟩ := ih hs.tail.tail
      have hw : isWord a = true := by
        have := hs.tail.head
        rw [hu] at this
        exact this
      refine ⟨by rw [List.all_cons, hw, hall]; rfl, t :: u :: ts, rfl, ?_⟩
      rw [List.map_cons, List.map_cons, ht, hu, hts]
      rfl
  · intro s s' a hitem hsize hs
    obtain ⟨hr, -⟩ | ⟨w, t, u, hr, ht, hu, rfl⟩ := member_eq_ok hitem
    · cases hr
    · rw [size_report, size_report] at hsize
      omega

theorem path_taken {name : String} {loc : Location} (hs : s.Lexical)
    (h : (path name loc : Parser Expr) s = .ok (e, s')) :
    ∃ members ts, e = .path loc (name :: members) ∧ members.all isWord = true ∧ s = ahead ts s'
      ∧ ts.map Token.kind = members.flatMap fun m => [.symbol '.', .word m] := by
  obtain ⟨members, s₁, hc, hret⟩ := bind_eq_ok h
  cases hret
  obtain ⟨hall, ts, hts⟩ := members_taken hc hs
  exact ⟨members, ts, rfl, hall, hts⟩

/-! ## arguments -/

/-- what a parser has taken for the arguments of a call -/
structure ArgsTaken (k : Nat) (s : TokenStream) (es : List Expr) (s' : TokenStream) : Prop where
  spelledBy : ∃ ts, s = ahead ts s' ∧ Expr.ArgsSpelledBy es (ts.map Token.kind)
  spelled : Expr.allSpelled es = true
  canonical : Expr.allCanonical es = true
  nesting : Expr.argNesting es ≤ k
  ends : ∃ kind, s'.front = some kind ∧ kind.endsArguments = true

theorem argument_eq_ok (hin : NestedTakes k inner) (hs : s.Lexical) {r : Option Expr}
    (h : argument inner s = .ok (r, s')) :
    (r = none ∧ s' = s ∧ ∃ kind, s.front = some kind ∧ kind.endsArguments = true)
    ∨ ∃ e s₁, r = some e ∧ e.Taken Expr.nesting k 0 s s₁
      ∧ ((∃ t, t.kind = .symbol ',' ∧ s₁ = s'.report (.ok t))
        ∨ (s₁ = s' ∧ ∃ kind, s'.front = some kind ∧ kind.endsArguments = true)) := by
  obtain ⟨t, hf, hrest⟩ := peek_bind_eq_ok h
  cases hend : (t.endsStatement || t.isSymbol ')') with
  | true =>
    rw [hend] at hrest
    cases hrest
    exact .inl ⟨rfl, rfl, t.kind, hf, hend⟩
  | false =>
    rw [hend] at hrest
    obtain ⟨e, s₂, he, hrest⟩ := bind_eq_ok hrest
    obtain ⟨u, hf', hrest⟩ := peek_bind_eq_ok hrest
    have htaken := (hin.expression hs he).1
    cases hcomma : u.isSymbol ',' with
    | true =>
      rw [hcomma] at hrest
      obtain ⟨v, s₄, hn, hret⟩ := bind_eq_ok hrest
      cases hret
      rw [isSymbol_iff.mp hcomma] at hf'
      obtain ⟨rfl, hv⟩ := next_of_front hn hf' (by simp)
      exact .inr ⟨e, _, rfl, htaken, .inl ⟨v, hv, rfl⟩⟩
    | false =>
      rw [hcomma] at hrest
      cases hend' : (u.endsStatement || u.isSymbol ')') with
      | true =>
        rw [hend'] at hrest
        cases hrest
        exact .inr ⟨e, _, rfl, htaken, .inr ⟨rfl, u.kind, hf', hend'⟩⟩
      | false =>
        rw [hend'] at hrest
        cases hrest

theorem arguments_taken (hin : NestedTakes k inner) (hs : s.Lexical) {es : List Expr}
    (h : arguments inner s = .ok (es, s')) : ArgsTaken k s es s' := by
  revert hs
  refine collect_induct (motive := fun es s s' => s.Lexical → ArgsTaken k s es s') ?_ ?_ ?_ h
  · intro s s' hitem hs
    obtain ⟨-, rfl, hends⟩ | ⟨e, s₁, hr, -⟩ := argument_eq_ok hin hs hitem
    · exact ⟨⟨[], rfl, rfl⟩, rfl, rfl, Nat.zero_le k, hends⟩
    · cases hr
  · intro s s₁ s' a as hitem _ hcollect ih hs
    obtain ⟨hr, -⟩ | ⟨e, s₂, hr, he, hsep⟩ := argument_eq_ok hin hs hitem
    · cases hr
    · cases hr
      obtain ⟨ts, rfl, hts⟩ := he.spelledBy
      have hargs : ∀ us : List Token, s₂ = ahead us s' → Expr.allSpelled as = true →
          Expr.allCanonical as = true → Expr.argNesting as ≤ k →
          Expr.MoreSpelledBy as (us.map Token.kind) →
          (∃ kind, s'.front = some kind ∧ kind.endsArguments = true) →
          ArgsTaken k (ahead ts s₂) (a :: as) s' := by
        rintro us rfl hspelled hcanonical hnesting hmore hends
        refine ⟨⟨ts ++ us, (ahead_append ts us s').symm, ?_⟩, ?_, ?_, ?_, hends⟩
        · exact ⟨ts.map Token.kind, us.map Token.kind, List.map_append, hts, hmore⟩
        · rw [Expr.allSpelled, he.spelled, hspelled]
          rfl
        · rw [Expr.allCanonical, he.canonical, hcanonical]
          rfl
        · have := he.depth_lt
          rw [Expr.argNesting, Nat.max_le]
          omega
      obtain ⟨t, ht, rfl⟩ | ⟨rfl, kind, hf, hk⟩ := hsep
      · have h' := ih hs.of_ahead.tail
        obtain ⟨us, rfl, hus⟩ := h'.spelledBy
        refine hargs (t :: us) rfl h'.spelled h'.canonical h'.nesting ?_ h'.ends
        rw [List.map_cons, ht]
        exact .of_args hus
      · -- the arguments end here, so there are no more of them
        have hnone : arguments inner s₂ = .ok (as, s') := hcollect
        rw [arguments_of_front hf hk] at hnone
        cases hnone
        exact hargs [] rfl rfl rfl (Nat.zero_le k) (.inl rfl) ⟨kind, hf, hk⟩
  · intro s s' a hitem hsize hs
    obtain ⟨hr, -⟩ | ⟨e, s₂, hr, he, hsep⟩ := argument_eq_ok hin hs hitem
    · cases hr
    · have hlt := he.shorter
      obtain ⟨t, -, rfl⟩ | ⟨rfl, -⟩ := hsep
      · rw [size_report] at hlt
        omega
      · exact absurd hlt hsize

/-! ## calls -/

theorem argumentList_eq_ok (hin : NestedTakes k inner) (hs : s.Lexical) {r : Option (List Expr)}
    (h : argumentList inner s = .ok (r, s')) :
    (r = none ∧ s' = s) ∨ ∃ args t u s₁, r = some args ∧ t.kind = .symbol '('
      ∧ u.kind = .symbol ')' ∧ s = s₁.report (.ok t) ∧ ArgsTaken k s₁ args (s'.report (.ok u)) := by
  obtain ⟨b, s₁, heat, hrest⟩ := bind_eq_ok h
  obtain ⟨rfl, t, ht, rfl⟩ | ⟨rfl, rfl, -⟩ := eatSymbol_eq_ok heat
  · obtain ⟨args, s₂, hargs, hrest⟩ := bind_eq_ok hrest
    obtain ⟨_, s₃, hclose, hret⟩ := bind_eq_ok hrest
    cases hret
    obtain ⟨u, hu, rfl⟩ := expectSymbol_eq_ok hclose
    exact .inr ⟨args, t, u, s₁, rfl, ht, hu, rfl, arguments_taken hin hs.tail hargs⟩
  · cases hrest
    exact .inl ⟨rfl, rfl⟩

theorem Taken.call {callee : Expr} {args : List Expr} {t u : Token} (loc : Location)
    (hf : callee.Taken Expr.nesting (k + 1) precedence.length s₀ (s.report (.ok t)))
    (hcall : callee.isCallable = true) (ht : t.kind = .symbol '(') (hu : u.kind = .symbol ')')
    (hargs : ArgsTaken k s args (s'.report (.ok u))) :
    (Expr.call loc callee args).Taken Expr.nesting (k + 1) precedence.length s₀ s' := by
  obtain ⟨as, rfl, has⟩ := hf.spelledBy
  obtain ⟨bs, rfl, hbs⟩ := hargs.spelledBy
  refine ⟨⟨as ++ (t :: (bs ++ [u])), ?_, ?_⟩, ?_, ?_, Nat.le_refl _, ?_, ?_, ?_⟩
  · rw [ahead_append, ahead_cons, ahead_append]
    rfl
  · refine ⟨as.map Token.kind, bs.map Token.kind, ?_, has, hbs⟩
    simp [ht, hu]
  · rw [Expr.spelled, hf.spelled, hargs.spelled]
    rfl
  · rw [Expr.canonical, hf.canonical, hcall, hargs.canonical]
    rfl
  · have h1 := hf.depth_lt
    have h2 := hargs.nesting
    rw [Expr.nesting, Nat.max_lt]
    omega
  · intro h
    cases h
  · rw [size_ahead, size_report, size_ahead, size_report]
    omega

theorem calls_taken (hin : NestedTakes k inner) {callee : Expr} (h₀ : s₀.Lexical)
    (hf : callee.Taken Expr.nesting (k + 1) precedence.length s₀ s)
    (hcall : callee.isCallable = true) (h : calls inner callee s = .ok (e, s')) :
    e.Taken Expr.nesting (k + 1) precedence.length s₀ s' := by
  obtain ⟨argLists, s₁, hc, hret⟩ := bind_eq_ok h
  cases hret
  clear h
  revert callee
  refine collect_induct (motive := fun argLists s s' => ∀ {callee},
    callee.Taken Expr.nesting (k + 1) precedence.length s₀ s → callee.isCallable = true →
    (argLists.foldl (fun callee args => Expr.call callee.location callee args) callee).Taken
      Expr.nesting (k + 1) precedence.length s₀ s') ?_ ?_ ?_ hc
  · intro s s' hitem callee hf hcall
    obtain ⟨-, rfl⟩ | ⟨args, t, u, s₂, hr, -⟩ := argumentList_eq_ok hin (hf.lexical h₀) hitem
    · exact hf
    · cases hr
  · intro s s₁ s' a as hitem _ _ ih callee hf hcall
    obtain ⟨hr, -⟩ | ⟨args, t, u, s₂, hr, ht, hu, rfl, hargs⟩ :=
      argumentList_eq_ok hin (hf.lexical h₀) hitem
    · cases hr
    · cases hr
      exact ih (Taken.call callee.location hf hcall ht hu hargs) rfl
  · intro s s' a hitem hsize callee hf hcall
    obtain ⟨hr, -⟩ | ⟨args, t, u, s₂, hr, ht, hu, rfl, hargs⟩ :=
      argumentList_eq_ok hin (hf.lexical h₀) hitem
    · cases hr
    · obtain ⟨bs, rfl, -⟩ := hargs.spelledBy
      rw [size_report, size_ahead, size_report] at hsize
      omega

/-! ## operands by their first token -/

theorem Taken.literal {t : Token} {v : Literal} (loc : Location) (ht : t.kind.Alike v.token)
    (hv : v.spelled = true) (s : TokenStream) :
    (Expr.literal loc v).Taken Expr.nesting (k + 1) precedence.length (s.report (.ok t)) s where
  spelledBy := ⟨[t], rfl, t.kind, rfl, ht⟩
  spelled := hv
  canonical := rfl
  level := Nat.le_refl _
  depth_lt := Nat.succ_pos k
  closed := by
    intro h
    cases h
  shorter := Nat.lt_succ_self _

theorem Taken.path {t : Token} {name : String} (loc : Location) (hs : (s.report (.ok t)).Lexical)
    (ht : t.kind = .word name) (hname : isReserved name = false)
    (h : (path name loc : Parser Expr) s = .ok (e, s')) :
    e.Taken Expr.nesting (k + 1) precedence.length (s.report (.ok t)) s' ∧ e.isCallable = true := by
  obtain ⟨members, ts, rfl, hall, rfl, hts⟩ := path_taken hs.tail h
  have hword : isWord name = true := by
    have := hs.head
    rw [ht] at this
    exact this
  refine ⟨⟨⟨t :: ts, rfl, ?_⟩, ?_, rfl, Nat.le_refl _, Nat.succ_pos k, ?_, ?_⟩, rfl⟩
  · show (t :: ts).map Token.kind = pathTokens (name :: members)
    rw [List.map_cons, ht, hts]
    rfl
  · rw [Expr.spelled, isPath, isName, hword, hname, hall]
    rfl
  · intro h
    cases h
  · rw [size_report, size_ahead]
    omega

theorem Taken.new {t u : Token} {c : String} (loc : Location)
    (hs : ((s.report (.ok u)).report (.ok t)).Lexical) (ht : t.kind.Alike (.word "new"))
    (hu : u.kind = .word c) (hc : isReserved c = false) :
    (Expr.new loc c).Taken Expr.nesting (k + 1) precedence.length
      ((s.report (.ok u)).report (.ok t)) s := by
  have hword : isWord c = true := by
    have := hs.tail.head
    rw [hu] at this
    exact this
  refine ⟨⟨[t, u], rfl, t.kind, ?_, ht⟩, ?_, rfl, Nat.le_refl _, Nat.succ_pos k, ?_, ?_⟩
  · rw [List.map_cons, List.map_singleton, hu]
  · rw [Expr.spelled, isName, hword, hc]
    rfl
  · intro h
    cases h
  · rw [size_report, size_report]
    omega

theorem Taken.not {t : Token} {a : Expr} (loc : Location) (ht : t.kind.Alike (.word "not"))
    (ha : a.Taken Expr.nesting k 0 s s') (hends : s'.Ends precedence) :
    (Expr.unary loc .not a).Taken Expr.nesting (k + 1) precedence.length
      (s.report (.ok t)) s' := by
  obtain ⟨ts, rfl, hts⟩ := ha.spelledBy
  refine ⟨⟨t :: ts, rfl, t.kind, ts.map Token.kind, rfl, ht, hts⟩, ha.spelled, ha.canonical,
    Nat.le_refl _, Nat.succ_lt_succ ha.depth_lt, fun _ => hends, ?_⟩
  rw [size_report]
  exact Nat.lt_succ_of_lt ha.shorter

theorem Taken.neg {t : Token} {a : Expr} (loc : Location) (ht : t.kind = .symbol '-')
    (ha : a.Taken Expr.nesting k precedence.length s s') :
    (Expr.unary loc .neg a).Taken Expr.nesting (k + 1) precedence.length
      (s.report (.ok t)) s' := by
  obtain ⟨ts, rfl, hts⟩ := ha.spelledBy
  have hlevel : a.level = precedence.length := Nat.le_antisymm (Expr.level_le a) ha.level
  refine ⟨⟨t :: ts, rfl, ts.map Token.kind, by rw [List.map_cons, ht], hts⟩, ha.spelled, ?_,
    Nat.le_refl _, Nat.succ_lt_succ ha.depth_lt, ha.closed, ?_⟩
  · rw [Expr.canonical, ha.canonical, decide_eq_true hlevel]
    rfl
  · rw [size_report]
    exact Nat.lt_succ_of_lt ha.shorter

theorem Taken.paren {t u : Token} {a : Expr} (loc : Location) (ht : t.kind = .symbol '(')
    (hu : u.kind = .symbol ')') (ha : a.Taken Expr.nesting k 0 s (s'.report (.ok u))) :
    (Expr.paren loc a).Taken Expr.nesting (k + 1) precedence.length (s.report (.ok t)) s' := by
  obtain ⟨ts, rfl, hts⟩ := ha.spelledBy
  refine ⟨⟨t :: (ts ++ [u]), ?_, ts.map Token.kind, ?_, hts⟩, ha.spelled, ha.canonical,
    Nat.le_refl _, Nat.succ_lt_succ ha.depth_lt, ?_, ?_⟩
  · rw [ahead_cons, ahead_append]
    rfl
  · simp [ht, hu]
  · intro h
    cases h
  · rw [size_report, size_ahead, size_report]
    omega

theorem wordFactor_taken (hin : NestedTakes k inner) {t : Token} {w : String}
    (hs : (s.report (.ok t)).Lexical) (ht : t.kind = .word w)
    (h : wordFactor inner t w s = .ok (e, s')) :
    e.Taken Expr.nesting (k + 1) precedence.length (s.report (.ok t)) s' := by
  have halike : ∀ {v : String}, Text.sameWord w v = true → t.kind.Alike (.word v) :=
    fun hv => .inr ⟨w, _, ht, rfl, hv⟩
  unfold wordFactor at h
  split at h
  · next hw => exact calls_taken hin hs (Taken.literal _ (halike hw) rfl s) rfl h
  split at h
  · next hw => exact calls_taken hin hs (Taken.literal _ (halike hw) rfl s) rfl h
  split at h
  · next hw =>
    obtain ⟨c, s₁, hname, hret⟩ := bind_eq_ok h
    cases hret
    obtain ⟨u, hu, hc, rfl⟩ := expectName_eq_ok hname
    exact Taken.new _ hs (halike hw) hu hc
  split at h
  · next hw =>
    obtain ⟨a, s₁, ha, hret⟩ := bind_eq_ok h
    cases hret
    obtain ⟨htaken, hends⟩ := hin.expression hs.tail ha
    exact Taken.not _ (halike hw) htaken hends
  split at h
  · cases h
  · next hw =>
    obtain ⟨callee, s₁, hpath, hcalls⟩ := bind_eq_ok h
    obtain ⟨htaken, hcall⟩ := Taken.path t.location hs ht (by simpa using hw) hpath
    exact calls_taken hin hs htaken hcall hcalls

/-- **An operand takes tokens that spell it.** -/
theorem factorIn_taken (hin : NestedTakes k inner) :
    Takes (k + 1) precedence.length (factorIn inner) := by
  intro s e s' hs h
  obtain ⟨t, s₁, hn, hrest⟩ := bind_eq_ok h
  have htail : t.kind ≠ .endOfInput → s = s₁.report (.ok t) := next_eq_ok_of_ne hn
  split at hrest
  · next n ht =>
    obtain rfl := htail (by rw [ht]; simp)
    have hlex := hs.head
    rw [ht] at hlex
    exact calls_taken hin hs (Taken.literal (v := .integer n) _ (.inl ht) hlex s₁) rfl hrest
  · next text ht =>
    obtain rfl := htail (by rw [ht]; simp)
    have hlex := hs.head
    rw [ht] at hlex
    exact calls_taken hin hs (Taken.literal (v := .string text) _ (.inl ht) hlex s₁) rfl hrest
  · next w ht =>
    obtain rfl := htail (by rw [ht]; simp)
    exact wordFactor_taken hin hs ht hrest
  · next ht =>
    obtain rfl := htail (by rw [ht]; simp)
    obtain ⟨a, s₂, ha, hret⟩ := bind_eq_ok hrest
    cases hret
    exact Taken.neg _ ht (hin.factor t.location hs.tail ha)
  · next ht =>
    obtain rfl := htail (by rw [ht]; simp)
    obtain ⟨a, s₂, ha, hrest⟩ := bind_eq_ok hrest
    obtain ⟨_, s₃, hclose, hcalls⟩ := bind_eq_ok hrest
    obtain ⟨u, hu, rfl⟩ := expectSymbol_eq_ok hclose
    have htaken := (hin.expression hs.tail ha).1
    exact calls_taken hin hs (Taken.paren t.location ht hu htaken) rfl hcalls
  · cases hrest
  · cases hrest
  · cases hrest

theorem nested_takes (k : Nat) : NestedTakes k (nested k) := by
  induction k with
  | zero =>
    refine ⟨?_, ?_⟩
    · intro s e s' _ h
      obtain ⟨loc, _, _, hfail⟩ := bind_eq_ok h
      cases hfail
    · intro loc s e s' _ h
      cases h
  | succ k ih =>
    have hfactor : Takes (k + 1) precedence.length (factorIn (nested k)) := factorIn_taken ih
    refine ⟨?_, fun _ => hfactor⟩
    intro s e s' hs h
    obtain ⟨htaken, hends, -⟩ := levels_taken (fun _ _ _ _ => rfl) hfactor
      (fun h => ⟨hfactor hs h, (hfactor hs h).lexical hs⟩) (Nat.zero_le _) h
    exact ⟨htaken, hends⟩

end Parser

open PageScript.Parser

/-! ## whole texts -/

theorem Parser.run_eq_ok {α : Type} {p : Parser α} {s : TokenStream} {a : α} :
    (p.run s).map Prod.fst = .ok a ↔ ∃ s', p s = .ok (a, s') := by
  show (p s).map Prod.fst = .ok a ↔ _
  cases p s with
  | error err =>
    constructor
    · intro h
      cases h
    · rintro ⟨s', h⟩
      cases h
  | ok r =>
    constructor
    · intro h
      obtain rfl := Except.ok.inj h
      exact ⟨r.2, rfl⟩
    · rintro ⟨s', h⟩
      obtain rfl := Except.ok.inj h
      rfl

/-- a parser that has succeeded up to the end of the input -/
theorem Parser.toEnd_eq_ok {α : Type} {p : Parser α} {expected : Expectation} {s s' : TokenStream}
    {a : α} (h : (do
      let a ← p
      let token ← next
      if token.isEnd then return a else fail (token.unexpected expected)) s = .ok (a, s')) :
    ∃ s₁ t, p s = .ok (a, s₁) ∧ next s₁ = .ok (t, s') ∧ t.isEnd = true := by
  obtain ⟨a', s₁, ha, hrest⟩ := bind_eq_ok h
  obtain ⟨t, s₂, hn, hend⟩ := bind_eq_ok hrest
  cases ht : t.isEnd with
  | false =>
    rw [ht] at hend
    cases hend
  | true =>
    rw [ht] at hend
    cases hend
    exact ⟨s₁, t, ha, hn, ht⟩

/-- the end of the input, which no scan reports as a token, comes behind everything else -/
theorem Parser.pending_of_next_isEnd {s s' : TokenStream} {t : Token} (hs : s.Lexical)
    (h : next s = .ok (t, s')) (ht : t.isEnd = true) : s.pending = [] := by
  rw [Token.isEnd, beq_iff_eq] at ht
  rcases next_eq_ok h with rfl | ⟨-, -, hnil⟩
  · have := hs.head
    rw [ht] at this
    cases this
  · exact hnil

theorem TokenStream.kinds_ahead (ts : List Token) {s : TokenStream} (hs : s.pending = []) :
    (ahead ts s).kinds = (ts.map Token.kind).map .ok := by
  induction ts with
  | nil =>
    rw [ahead_nil, kinds, hs]
    rfl
  | cons t ts ih =>
    rw [ahead_cons, kinds_report, ih]
    rfl

/-- an accepted text is spelled by its tokens, with nothing left over -/
theorem Expr.taken_of_ofText {name text : String} {e : Expr}
    (h : Expr.ofText name text = .ok e) :
    ∃ s', s'.pending = [] ∧
      e.Taken Expr.nesting maxNesting 0 (TokenStream.ofText name .code text) s' := by
  obtain ⟨s', hp⟩ := run_eq_ok.mp h
  obtain ⟨s₁, t, he, hn, ht⟩ := toEnd_eq_ok hp
  have hs := TokenStream.lexical_ofText name .code text
  have htaken := ((nested_takes maxNesting).expression hs he).1
  exact ⟨s₁, pending_of_next_isEnd (htaken.lexical hs) hn ht, htaken⟩

/-- **Soundness of reading expressions.**  The tokens of an accepted text are those of the tree in
order, up to the letter case of keywords and a comma behind the last argument of a call, and the
tree respects the table of precedence. -/
theorem Expr.ofText_sound {name text : String} {e : Expr} (h : Expr.ofText name text = .ok e) :
    (∃ ks, (TokenStream.ofText name .code text).kinds = ks.map .ok ∧ e.SpelledBy ks)
      ∧ e.canonical = true := by
  obtain ⟨s', hnil, htaken⟩ := Expr.taken_of_ofText h
  obtain ⟨ts, hts, hspell⟩ := htaken.spelledBy
  refine ⟨⟨ts.map Token.kind, ?_, hspell⟩, htaken.canonical⟩
  rw [hts, kinds_ahead ts hnil]

theorem eq_ok_of_toOption {ε α : Type} {x : Except ε α} {a : α} (h : x.toOption = some a) :
    x = .ok a := by
  cases x with
  | error e => cases h
  | ok b => exact congrArg _ (Option.some.inj h)

/-- the tree of `Not f(1,) <> -x AND 2` -/
def negatedComparison : Expr :=
  .unary ⟨"page", 1, 1⟩ .not (.binary ⟨"page", 1, 17⟩ .and
    (.binary ⟨"page", 1, 11⟩ .notEq
      (.call ⟨"page", 1, 5⟩ (.path ⟨"page", 1, 5⟩ ["f"]) [.literal ⟨"page", 1, 7⟩ (.integer 1)])
      (.unary ⟨"page", 1, 14⟩ .neg (.path ⟨"page", 1, 15⟩ ["x"])))
    (.literal ⟨"page", 1, 21⟩ (.integer 2)))

theorem Expr.ofText_sound_negatedComparison :
    Expr.ofText "page" "Not f(1,) <> -x AND 2" = .ok negatedComparison
      ∧ (∃ ks, (TokenStream.ofText "page" .code "Not f(1,) <> -x AND 2").kinds = ks.map .ok
          ∧ negatedComparison.SpelledBy ks)
      ∧ negatedComparison.canonical = true := by
  have h : Expr.ofText "page" "Not f(1,) <> -x AND 2" = .ok negatedComparison :=
    eq_ok_of_toOption (by decide +kernel)
  exact ⟨h, Expr.ofText_sound h⟩

end PageScript
