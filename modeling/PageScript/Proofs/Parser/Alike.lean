import PageScript.Parser.Expression
import PageScript.Proofs.Parser.Steps
import PageScript.Proofs.Store.Alike
import PageScript.Proofs.Token.Kinds

/-!
# Parsers on streams that are alike

Two streams are alike when they report the same, up to the first fault or the end of the input:
tokens of one kind, words up to the case of letters, and faults of one variant.  Which locations
correspond is left open (`L`); what parsers make of alike streams corresponds in the same way.

* `TokenStream.Alike`   streams that are alike; what stands behind a fault does not count;
* `Parser.Alike`        parsers that go alike on such streams, whatever comes next in them;
* `Alike.bind`, `Alike.collect`   parsers in two parts, and repetition;
* `alike_levels`, `alike_factorIn`, `alike_nested`   expressions.

A repetition ends where a round takes no token, so parsers that go alike also have to take equally
many reports (`After.taken`), although the streams may differ in length behind a fault.
-/

namespace PageScript

variable {L : Location → Location → Prop}

/-! ## tokens and errors -/

/-- the variants of faults, without what they quote -/
inductive ParseFault.Variant
  | unexpectedToken
  | unexpectedEnd
  | mismatchedEnd
  | parenthesizedSubCall
  | unterminatedString
  | integerOverflow
  | nestingTooDeep
deriving DecidableEq

def ParseFault.variant : ParseFault → Variant
  | .unexpectedToken .. => .unexpectedToken
  | .unexpectedEnd _ => .unexpectedEnd
  | .mismatchedEnd .. => .mismatchedEnd
  | .parenthesizedSubCall => .parenthesizedSubCall
  | .unterminatedString => .unterminatedString
  | .integerOverflow _ => .integerOverflow
  | .nestingTooDeep _ => .nestingTooDeep

/-- tokens of kinds that are alike, at corresponding places -/
structure Token.Alike (L : Location → Location → Prop) (t t' : Token) : Prop where
  kind : t.kind.Alike t'.kind
  location : L t.location t'.location

structure ParseError.Alike (L : Location → Location → Prop) (e e' : ParseError) : Prop where
  variant : e.fault.variant = e'.fault.variant
  location : L e.location e'.location

theorem Text.sameWord_congr {w w' : String} (h : Text.fold w = Text.fold w') (keyword : String) :
    Text.sameWord w keyword = Text.sameWord w' keyword := by
  rw [Text.sameWord, Text.sameWord, h]

theorem isReserved_congr {w w' : String} (h : Text.fold w = Text.fold w') :
    isReserved w = isReserved w' := by
  rw [isReserved, isReserved, h]

namespace Token.Alike

variable {t t' : Token}

/-- tokens that are alike, by the kind that they share -/
@[elab_as_elim]
theorem byKind {motive : ∀ t t' : Token, t.Alike L t' → Prop} (h : t.Alike L t')
    (word : ∀ {v w l l'} (hw : Text.fold v = Text.fold w) (hl : L l l'),
      motive ⟨.word v, l⟩ ⟨.word w, l'⟩ ⟨.word hw, hl⟩)
    (symbol : ∀ sign {l l'} (hl : L l l'),
      motive ⟨.symbol sign, l⟩ ⟨.symbol sign, l'⟩ ⟨.refl _, hl⟩)
    (integer : ∀ value {l l'} (hl : L l l'),
      motive ⟨.integer value, l⟩ ⟨.integer value, l'⟩ ⟨.refl _, hl⟩)
    (string : ∀ value {l l'} (hl : L l l'),
      motive ⟨.string value, l⟩ ⟨.string value, l'⟩ ⟨.refl _, hl⟩)
    (chunk : ∀ text {l l'} (hl : L l l'), motive ⟨.chunk text, l⟩ ⟨.chunk text, l'⟩ ⟨.refl _, hl⟩)
    (endOfInput : ∀ {l l'} (hl : L l l'),
      motive ⟨.endOfInput, l⟩ ⟨.endOfInput, l'⟩ ⟨.refl _, hl⟩) : motive t t' h := by
  obtain ⟨kind, l⟩ := t
  obtain ⟨kind', l'⟩ := t'
  obtain ⟨hkind | ⟨v, w, hv, hw, hsame⟩, hl⟩ := h
  · obtain rfl : kind = kind' := hkind
    cases kind with
    | word w => exact word rfl hl
    | symbol sign => exact symbol sign hl
    | integer value => exact integer value hl
    | string value => exact string value hl
    | chunk text => exact chunk text hl
    | endOfInput => exact endOfInput hl
  · obtain rfl : kind = .word v := hv
    obtain rfl : kind' = .word w := hw
    exact word ((Text.sameWord_iff v w).mp hsame) hl

theorem isKeyword (h : t.Alike L t') (keyword : String) :
    t.isKeyword keyword = t'.isKeyword keyword := by
  cases h using byKind with
  | word hw _ => exact Text.sameWord_congr hw keyword
  | _ => rfl

theorem isSymbol (h : t.Alike L t') (sign : Char) : t.isSymbol sign = t'.isSymbol sign := by
  cases h using byKind <;> rfl

theorem isEnd (h : t.Alike L t') : t.isEnd = t'.isEnd := by
  cases h using byKind <;> rfl

theorem endsStatement (h : t.Alike L t') : t.endsStatement = t'.endsStatement := by
  cases h using byKind <;> rfl

theorem unexpected (h : t.Alike L t') (expected : Expectation) :
    (t.unexpected expected).Alike L (t'.unexpected expected) := by
  refine ⟨?_, h.location⟩
  unfold Token.unexpected
  rw [h.isEnd]
  split
  · rfl
  · rfl

end Token.Alike

/-! ## streams -/

/-- streams that report the same up to the first fault or the end of the input -/
inductive TokenStream.Alike (L : Location → Location → Prop) : TokenStream → TokenStream → Prop
  | finished {l l' : Location} : L l l' → Alike L ⟨[], l⟩ ⟨[], l'⟩
  | token {t t' : Token} {s s' : TokenStream} :
    t.Alike L t' → Alike L s s' → Alike L (s.report (.ok t)) (s'.report (.ok t'))
  | fault {e e' : ParseError} {s s' : TokenStream} :
    e.Alike L e' → Alike L (s.report (.error e)) (s'.report (.error e'))

namespace Parser

open TokenStream

variable {α β : Type} {V W : α → α → Prop} {U : β → β → Prop}

/-- related results of parsers that have taken equally many reports from two streams -/
structure After (L : Location → Location → Prop) (V : α → α → Prop) (s s' : TokenStream)
    (r r' : α × TokenStream) : Prop where
  result : V r.1 r'.1
  rest : r.2.Alike L r'.2
  taken : s.size + r'.2.size = s'.size + r.2.size

/-- parsers that go alike on streams that are alike -/
def Alike (L : Location → Location → Prop) (V : α → α → Prop) (p p' : Parser α) : Prop :=
  ∀ s s', s.Alike L s' → Matches (ParseError.Alike L) (After L V s s') (p s) (p' s')

/-! ## parsers in two parts -/

theorem alike_pure {a a' : α} (h : V a a') : Alike L V (pure a) (pure a') :=
  fun _ _ hs => .ok ⟨h, hs, Nat.add_comm _ _⟩

theorem alike_fail {e e' : ParseError} (h : e.Alike L e') : Alike L V (fail e) (fail e') :=
  fun _ _ _ => .error h

theorem Alike.bind {p p' : Parser α} {f f' : α → Parser β} (hp : Alike L V p p')
    (hf : ∀ a a', V a a' → Alike L U (f a) (f' a')) : Alike L U (p >>= f) (p' >>= f') := by
  intro s s' hs
  have hpp := hp s s' hs
  show Matches _ _ (p s >>= fun x => f x.1 x.2) (p' s' >>= fun x => f' x.1 x.2)
  generalize p s = o at hpp ⊢
  generalize p' s' = o' at hpp ⊢
  cases hpp with
  | error he => exact .error he
  | @ok r r' hr =>
    have hff := hf _ _ hr.result _ _ hr.rest
    show Matches _ _ (f r.1 r.2) (f' r'.1 r'.2)
    generalize f r.1 r.2 = u at hff ⊢
    generalize f' r'.1 r'.2 = u' at hff ⊢
    cases hff with
    | error he => exact .error he
    | ok hu =>
      have h1 := hr.taken
      have h2 := hu.taken
      exact .ok ⟨hu.result, hu.rest, by omega⟩

theorem Alike.imp {p p' : Parser α} (hp : Alike L V p p') (h : ∀ a a', V a a' → W a a') :
    Alike L W p p' := by
  intro s s' hs
  have hpp := hp s s' hs
  generalize p s = o at hpp ⊢
  generalize p' s' = o' at hpp ⊢
  cases hpp with
  | error he => exact .error he
  | ok hr => exact .ok ⟨h _ _ hr.result, hr.rest, hr.taken⟩

theorem Alike.ite {b b' : Bool} {p p' q q' : Parser α} (hb : b = b') (hp : Alike L V p p')
    (hq : Alike L V q q') :
    Alike L V (if b = true then p else q) (if b' = true then p' else q') := by
  subst hb
  cases b with
  | true => exact hp
  | false => exact hq

/-! ## single tokens -/

theorem alike_next : Alike L (Token.Alike L) next next := by
  intro s s' hs
  cases hs with
  | finished hl => exact .ok ⟨⟨.refl _, hl⟩, .finished hl, rfl⟩
  | @token t t' s s' ht hs =>
    refine .ok ⟨ht, hs, ?_⟩
    show s.size + 1 + s'.size = s'.size + 1 + s.size
    omega
  | fault he => exact .error he

theorem alike_peek : Alike L (Token.Alike L) peek peek := by
  intro s s' hs
  cases hs with
  | finished hl => exact .ok ⟨⟨.refl _, hl⟩, .finished hl, rfl⟩
  | token ht hs => exact .ok ⟨ht, .token ht hs, Nat.add_comm _ _⟩
  | fault he => exact .error he

theorem alike_here : Alike L L here here :=
  alike_peek.bind fun _ _ ht => alike_pure ht.location

theorem alike_peekIsKeyword (word : String) :
    Alike L Eq (peekIsKeyword word) (peekIsKeyword word) :=
  alike_peek.bind fun _ _ ht => alike_pure (ht.isKeyword word)

theorem alike_peekIsSymbol (sign : Char) : Alike L Eq (peekIsSymbol sign) (peekIsSymbol sign) :=
  alike_peek.bind fun _ _ ht => alike_pure (ht.isSymbol sign)

theorem alike_eatKeyword (word : String) : Alike L Eq (eatKeyword word) (eatKeyword word) := by
  refine (alike_peekIsKeyword word).bind fun _ _ hb => .ite hb ?_ (alike_pure rfl)
  exact alike_next.bind fun _ _ _ => alike_pure rfl

theorem alike_eatSymbol (sign : Char) : Alike L Eq (eatSymbol sign) (eatSymbol sign) := by
  refine (alike_peekIsSymbol sign).bind fun _ _ hb => .ite hb ?_ (alike_pure rfl)
  exact alike_next.bind fun _ _ _ => alike_pure rfl

theorem alike_expectKeyword (word : String) :
    Alike L Eq (expectKeyword word) (expectKeyword word) :=
  alike_next.bind fun _ _ ht =>
    .ite (ht.isKeyword word) (alike_pure rfl) (alike_fail (ht.unexpected _))

theorem alike_expectSymbol (sign : Char) : Alike L Eq (expectSymbol sign) (expectSymbol sign) :=
  alike_next.bind fun _ _ ht =>
    .ite (ht.isSymbol sign) (alike_pure rfl) (alike_fail (ht.unexpected _))

def NameAlike (L : Location → Location → Prop) (n n' : String × Location) : Prop :=
  Text.fold n.1 = Text.fold n'.1 ∧ L n.2 n'.2

theorem alike_expectName (expected : Expectation) :
    Alike L (NameAlike L) (expectName expected) (expectName expected) := by
  refine alike_next.bind fun t t' ht => ?_
  have hfail := alike_fail (V := NameAlike L) (ht.unexpected expected)
  cases ht using Token.Alike.byKind with
  | word hw hloc => exact .ite (isReserved_congr hw) hfail (alike_pure ⟨hw, hloc⟩)
  | _ => exact hfail

theorem alike_expectMember :
    Alike L (fun n n' => Text.fold n = Text.fold n') expectMember expectMember := by
  refine alike_next.bind fun t t' ht => ?_
  have hfail := alike_fail (V := fun n n' : String => Text.fold n = Text.fold n')
    (ht.unexpected .member)
  cases ht using Token.Alike.byKind with
  | word hw _ => exact alike_pure hw
  | _ => exact hfail

/-! ## ends -/

theorem alike_endOfStatement : Alike L Eq endOfStatement endOfStatement := by
  refine alike_peek.bind fun _ _ ht => .ite (ht.isSymbol ':') ?_ (.ite ht.endsStatement ?_ ?_)
  · exact alike_next.bind fun _ _ _ => alike_pure rfl
  · exact alike_pure rfl
  · exact alike_fail (ht.unexpected _)

theorem alike_expectEnd (word : String) : Alike L Eq (expectEnd word) (expectEnd word) := by
  refine (alike_expectKeyword "end").bind fun _ _ _ => alike_next.bind fun t t' ht => ?_
  refine .ite (ht.isKeyword word) (alike_pure rfl) ?_
  have hfail := alike_fail (V := @Eq Unit) (ht.unexpected (.keyword word))
  cases ht using Token.Alike.byKind with
  | word hw hloc => exact alike_fail ⟨rfl, hloc⟩
  | _ => exact hfail

/-! ## repetition -/

theorem Alike.collect {item item' : Parser (Option α)} (h : Alike L (Option.Rel V) item item') :
    Alike L (List.Forall₂ V) (collect item) (collect item') := by
  intro s s' hs
  -- both sides make the same rounds, since each round takes equally many reports
  induction hn : s.size using Nat.strongRecOn generalizing s s' with
  | ind n ih =>
    subst hn
    have hitem := h s s' hs
    rw [collect_eq item s, collect_eq item' s']
    generalize item s = o at hitem ⊢
    generalize item' s' = o' at hitem ⊢
    cases hitem with
    | error he => exact .error he
    | @ok r r' hr =>
      obtain ⟨a, rest⟩ := r
      obtain ⟨a', rest'⟩ := r'
      obtain ⟨hresult, hrest, htaken⟩ := hr
      cases hresult with
      | none => exact .ok ⟨.nil, hrest, htaken⟩
      | some hv =>
        simp only [size] at htaken
        by_cases hlt : rest.pending.length < s.pending.length
        · have hlt' : rest'.pending.length < s'.pending.length := by omega
          have hrounds := ih rest.size hlt rest rest' hrest rfl
          simp only [if_pos hlt, if_pos hlt']
          generalize Parser.collect item rest = u at hrounds ⊢
          generalize Parser.collect item' rest' = u' at hrounds ⊢
          cases hrounds with
          | error he => exact .error he
          | ok hu =>
            refine .ok ⟨.cons hv hu.result, hu.rest, ?_⟩
            have h2 := hu.taken
            simp only [size] at h2 ⊢
            omega
        · have hlt' : ¬ rest'.pending.length < s'.pending.length := by omega
          simp only [if_neg hlt, if_neg hlt']
          exact .ok ⟨.cons hv .nil, hrest, htaken⟩

/-! ## operators -/

theorem keyword?_congr (g : OperatorGroup) {w w' : String} (h : Text.fold w = Text.fold w') :
    g.keyword? w = g.keyword? w' := by
  simp only [OperatorGroup.keyword?, Text.sameWord, h]

def OperatorAlike (L : Location → Location → Prop) (o o' : BinaryOp × Location) : Prop :=
  o.1 = o'.1 ∧ L o.2 o'.2

theorem alike_groupSign (g : OperatorGroup) (sign : Char) :
    Alike L Eq (groupSign g sign) (groupSign g sign) := by
  refine alike_peek.bind fun t t' ht => ?_
  have hfail := alike_fail (V := @Eq BinaryOp) (ht.unexpected .operator)
  have hnext (op : BinaryOp) : Alike L Eq (next >>= fun _ => pure op) (next >>= fun _ => pure op) :=
    alike_next.bind fun _ _ _ => alike_pure rfl
  cases ht using Token.Alike.byKind with
  | symbol other _ =>
    dsimp only
    split
    · exact hnext _
    · exact alike_pure rfl
    · exact hfail
  | _ =>
    dsimp only
    split
    · exact hnext _
    · exact alike_pure rfl
    · exact hfail

theorem alike_groupOperator (g : OperatorGroup) :
    Alike L (Option.Rel (OperatorAlike L)) (groupOperator g) (groupOperator g) := by
  refine alike_peek.bind fun t t' ht => ?_
  cases ht using Token.Alike.byKind with
  | word hw hloc =>
    simp only [keyword?_congr g hw]
    split
    · exact alike_next.bind fun _ _ _ => alike_pure (.some ⟨rfl, hloc⟩)
    · exact alike_pure .none
  | symbol sign hloc =>
    refine .ite rfl ?_ (alike_pure .none)
    refine alike_next.bind fun _ _ _ => (alike_groupSign g sign).bind fun op op' hop => ?_
    exact alike_pure (.some ⟨hop, hloc⟩)
  | _ => exact alike_pure .none

/-- an operator and its right operand, read alike -/
def TailAlike (L : Location → Location → Prop) (o o' : BinaryOp × Location × Expr) : Prop :=
  o.1 = o'.1 ∧ L o.2.1 o'.2.1 ∧ o.2.2.Alike (.spelled L) o'.2.2

section operands

variable {first first' operand operand' : Parser Expr}

theorem alike_groupTail (g : OperatorGroup)
    (hoperand : Alike L (Expr.Alike (.spelled L)) operand operand') :
    Alike L (Option.Rel (TailAlike L)) (groupTail g operand) (groupTail g operand') := by
  refine (alike_groupOperator g).bind fun o o' ho => ?_
  cases ho with
  | none => exact alike_pure .none
  | some h => exact hoperand.bind fun e e' he => alike_pure (.some ⟨h.1, h.2, he⟩)

theorem leftAssociated_alike {tails tails' : List (BinaryOp × Location × Expr)}
    (h : List.Forall₂ (TailAlike L) tails tails') {left left' : Expr}
    (hleft : left.Alike (.spelled L) left') :
    (leftAssociated left tails).Alike (.spelled L) (leftAssociated left' tails') := by
  induction h generalizing left left' with
  | nil => exact hleft
  | @cons o o' _ _ ho _ ih =>
    obtain ⟨op, loc, right⟩ := o
    obtain ⟨op', loc', right'⟩ := o'
    obtain ⟨rfl, hloc, hright⟩ := ho
    exact ih (.binary hloc hleft hright)

theorem alike_levels (groups : List OperatorGroup)
    (hfirst : Alike L (Expr.Alike (.spelled L)) first first')
    (hoperand : Alike L (Expr.Alike (.spelled L)) operand operand') :
    Alike L (Expr.Alike (.spelled L)) (levels groups first operand)
      (levels groups first' operand') := by
  induction groups generalizing first first' with
  | nil => exact hfirst
  | cons g groups ih =>
    refine (ih hfirst).bind fun left left' hleft => ?_
    refine (Alike.collect (alike_groupTail g (ih hoperand))).bind fun tails tails' htails => ?_
    exact alike_pure (leftAssociated_alike htails hleft)

end operands

/-! ## operands -/

/-- parsers for what stands further in that go alike -/
structure Nested.Alike (L : Location → Location → Prop) (n n' : Nested Parser) : Prop where
  expression : Parser.Alike L (Expr.Alike (.spelled L)) n.expression n'.expression
  factor : ∀ {l l'}, L l l' → Parser.Alike L (Expr.Alike (.spelled L)) (n.factor l) (n'.factor l')
  continued : ∀ {e e'}, e.Alike (.spelled L) e' →
    Parser.Alike L (Expr.Alike (.spelled L)) (n.continued e) (n'.continued e')

theorem alike_member :
    Alike L (Option.Rel fun n n' => Text.fold n = Text.fold n') member member :=
  (alike_eatSymbol '.').bind fun _ _ hb => .ite hb
    (alike_expectMember.bind fun _ _ hn => alike_pure (.some hn)) (alike_pure .none)

theorem alike_path {first first' : String} (hfirst : Text.fold first = Text.fold first')
    {loc loc' : Location} (hloc : L loc loc') :
    Alike L (Expr.Alike (.spelled L)) (path first loc) (path first' loc') :=
  alike_member.collect.bind fun _ _ hns => alike_pure (.path hloc (.cons hfirst hns))

section nesting

variable {inner inner' : Nested Parser} (hinner : inner.Alike L inner')

include hinner

theorem alike_argument :
    Alike L (Option.Rel (Expr.Alike (.spelled L))) (argument inner) (argument inner') := by
  refine alike_peek.bind fun t t' ht => ?_
  refine .ite (by rw [ht.endsStatement, ht.isSymbol ')']) (alike_pure .none) ?_
  refine hinner.expression.bind fun e e' he => alike_peek.bind fun u u' hu => ?_
  refine .ite (hu.isSymbol ',') ?_ (.ite (by rw [hu.endsStatement, hu.isSymbol ')']) ?_ ?_)
  · exact alike_next.bind fun _ _ _ => alike_pure (.some he)
  · exact alike_pure (.some he)
  · exact alike_fail (hu.unexpected .argumentEnd)

theorem alike_arguments :
    Alike L (Expr.AllAlike (.spelled L)) (arguments inner) (arguments inner') :=
  (alike_argument hinner).collect.imp fun _ _ => Expr.allAlike_of_forall₂

theorem alike_argumentList :
    Alike L (Option.Rel (Expr.AllAlike (.spelled L))) (argumentList inner)
      (argumentList inner') := by
  refine (alike_eatSymbol '(').bind fun _ _ hb => .ite hb ?_ (alike_pure .none)
  refine (alike_arguments hinner).bind fun args args' hargs => ?_
  exact (alike_expectSymbol ')').bind fun _ _ _ => alike_pure (.some hargs)

theorem alike_calls {callee callee' : Expr} (hcallee : callee.Alike (.spelled L) callee') :
    Alike L (Expr.Alike (.spelled L)) (calls inner callee) (calls inner' callee') := by
  refine (alike_argumentList hinner).collect.bind fun lists lists' hlists => alike_pure ?_
  induction hlists generalizing callee callee' with
  | nil => exact hcallee
  | cons hargs _ ih => exact ih (.call hcallee.location hcallee hargs)

theorem alike_wordFactor {t t' : Token} (ht : t.Alike L t') {w w' : String}
    (hw : Text.fold w = Text.fold w') :
    Alike L (Expr.Alike (.spelled L)) (wordFactor inner t w) (wordFactor inner' t' w') := by
  have hloc := ht.location
  have hsame := Text.sameWord_congr hw
  refine .ite (hsame "true") (alike_calls hinner (.literal hloc)) ?_
  refine .ite (hsame "false") (alike_calls hinner (.literal hloc)) ?_
  refine .ite (hsame "new") ?_ (.ite (hsame "not") ?_ (.ite (isReserved_congr hw) ?_ ?_))
  · exact (alike_expectName .className).bind fun n n' hn => alike_pure (.new hloc hn.1)
  · exact hinner.expression.bind fun e e' he => alike_pure (.unary hloc he)
  · exact alike_fail (ht.unexpected .expression)
  · exact (alike_path hw hloc).bind fun e e' he => alike_calls hinner he

theorem alike_factorIn :
    Alike L (Expr.Alike (.spelled L)) (factorIn inner) (factorIn inner') := by
  refine alike_next.bind fun t t' ht => ?_
  have hfail := alike_fail (V := Expr.Alike (.spelled L)) (ht.unexpected .expression)
  cases ht using Token.Alike.byKind with
  | integer n hloc => exact alike_calls hinner (.literal hloc)
  | string s hloc => exact alike_calls hinner (.literal hloc)
  | word hw hloc => exact alike_wordFactor hinner ⟨.word hw, hloc⟩ hw
  | symbol sign hloc =>
    dsimp only
    split
    · contradiction
    · contradiction
    · contradiction
    · exact (hinner.factor hloc).bind fun e e' he => alike_pure (.unary hloc he)
    · refine hinner.expression.bind fun e e' he => (alike_expectSymbol ')').bind fun _ _ _ => ?_
      exact alike_calls hinner (.paren hloc he)
    · exact hfail
    · contradiction
    · contradiction
  | chunk => exact hfail
  | endOfInput => exact hfail

end nesting

/-! ## nesting -/

theorem alike_tooDeep {l l' : Location} (h : L l l') : (tooDeep l).Alike L (tooDeep l') := ⟨rfl, h⟩

/-- expressions within one nesting budget are read alike -/
theorem alike_nested (k : Nat) : (nested k).Alike L (nested k) := by
  induction k with
  | zero =>
    refine ⟨?_, ?_, ?_⟩
    · exact alike_here.bind fun _ _ hl => alike_fail (alike_tooDeep hl)
    · exact fun hl => alike_fail (alike_tooDeep hl)
    · exact fun he => alike_fail (alike_tooDeep he.location)
  | succ k ih =>
    have hfactor := alike_factorIn ih
    refine ⟨?_, ?_, ?_⟩
    · exact alike_levels precedence hfactor hfactor
    · exact fun _ => hfactor
    · exact fun he => alike_levels precedence (alike_pure he) hfactor

end Parser

end PageScript
