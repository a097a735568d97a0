import PageScript.Parser

/-!
# Steps of a parser

How the small parsers act on a stream of which the next tokens are known, and what they have done
when they succeed.

* `TokenStream.ahead`   a stream with some tokens in front of it;
* `TokenStream.front`   the token that comes next;
* `Parser.bind_of_ok`   a parser in two parts, when the first part succeeds;
* `Parser.bind_eq_ok`   the two parts of a parser that has succeeded;
* `Parser.collect_of_some`, `Parser.collect_of_none`   one round of a repetition.
-/

namespace PageScript

namespace TokenStream

/-! ## streams with known tokens in front -/

/-- some tokens in front of a stream -/
def ahead : List Token → TokenStream → TokenStream
  | [], s => s
  | t :: ts, s => (ahead ts s).report (.ok t)

@[simp] theorem ahead_nil (s : TokenStream) : ahead [] s = s := rfl

@[simp] theorem ahead_cons (t : Token) (ts : List Token) (s : TokenStream) :
    ahead (t :: ts) s = (ahead ts s).report (.ok t) := rfl

theorem ahead_append (ts us : List Token) (s : TokenStream) :
    ahead (ts ++ us) s = ahead ts (ahead us s) := by
  induction ts with
  | nil => rfl
  | cons t ts ih => rw [List.cons_append, ahead_cons, ahead_cons, ih]

/-- how many reports are left -/
def size (s : TokenStream) : Nat := s.pending.length

@[simp] theorem size_report (r : Except ParseError Token) (s : TokenStream) :
    (s.report r).size = s.size + 1 := rfl

theorem size_ahead (ts : List Token) (s : TokenStream) :
    (ahead ts s).size = ts.length + s.size := by
  induction ts with
  | nil => exact (Nat.zero_add _).symm
  | cons t ts ih =>
    rw [ahead_cons, size_report, ih, List.length_cons]
    omega

/-- the kind of the token that comes next, if none but a token or the end does -/
def front (s : TokenStream) : Option TokenKind :=
  match s.pending with
  | [] => some .endOfInput
  | .ok t :: _ => some t.kind
  | .error _ :: _ => none

@[simp] theorem front_report (t : Token) (s : TokenStream) :
    (s.report (.ok t)).front = some t.kind := rfl

end TokenStream

namespace Parser

open TokenStream

variable {α β : Type} {p : Parser α} {f : α → Parser β} {s s' s'' : TokenStream}

/-! ## parsers in two parts -/

@[simp] theorem pure_apply (a : α) (s : TokenStream) : (pure a : Parser α) s = .ok (a, s) := rfl

@[simp] theorem fail_apply (e : ParseError) (s : TokenStream) :
    (fail e : Parser α) s = .error e := rfl

@[simp] theorem tokens_eq (p : Parser α) : (Reader.tokens p : Parser α) = p := rfl

/-- a parser repeats another by collecting what it finds -/
@[simp] theorem repeated_eq (item : Parser (Option α)) :
    (Reader.repeated item : Parser (List α)) = collect item := rfl

theorem bind_of_ok {a : α} (h : p s = .ok (a, s')) : (p >>= f) s = f a s' := by
  show (p s >>= fun x => f x.1 x.2) = f a s'
  rw [h]
  rfl

/-- a parser takes tokens as it is -/
theorem lift_bind_of_ok {a : α} (h : p s = .ok (a, s')) : ((liftM p : Parser α) >>= f) s = f a s' :=
  bind_of_ok h

theorem bind_of_error {e : ParseError} (h : p s = .error e) : (p >>= f) s = .error e := by
  show (p s >>= fun x => f x.1 x.2) = .error e
  rw [h]
  rfl

theorem bind_eq_ok {b : β} (h : (p >>= f) s = .ok (b, s'')) :
    ∃ a s', p s = .ok (a, s') ∧ f a s' = .ok (b, s'') := by
  cases hp : p s with
  | error e => rw [bind_of_error hp] at h; cases h
  | ok r =>
    obtain ⟨a, s'⟩ := r
    rw [bind_of_ok hp] at h
    exact ⟨a, s', rfl, h⟩

theorem bind_congr_left {p' : Parser α} (h : p s = p' s') : (p >>= f) s = (p' >>= f) s' := by
  show (p s >>= fun x => f x.1 x.2) = (p' s' >>= fun x => f x.1 x.2)
  rw [h]

theorem map_of_ok {a : α} (g : α → β) (h : p s = .ok (a, s')) : (g <$> p) s = .ok (g a, s') := by
  show ((fun x => (g x.1, x.2)) <$> p s) = _
  rw [h]
  rfl

theorem map_of_error {e : ParseError} (g : α → β) (h : p s = .error e) :
    (g <$> p) s = .error e := by
  show ((fun x => (g x.1, x.2)) <$> p s) = _
  rw [h]
  rfl

theorem map_eq_ok {g : α → β} {b : β} (h : (g <$> p) s = .ok (b, s'')) :
    ∃ a s', p s = .ok (a, s') ∧ g a = b ∧ s' = s'' := by
  change ((fun x => (g x.1, x.2)) <$> p s) = _ at h
  cases hp : p s with
  | error e =>
    rw [hp] at h
    cases h
  | ok r =>
    rw [hp] at h
    cases h
    exact ⟨r.1, r.2, rfl, rfl, rfl⟩

/-! ## single tokens -/

@[simp] theorem next_report (t : Token) (s : TokenStream) :
    next (s.report (.ok t)) = .ok (t, s) := rfl

@[simp] theorem peek_report (t : Token) (s : TokenStream) :
    peek (s.report (.ok t)) = .ok (t, s.report (.ok t)) := rfl

theorem peek_of_front {kind : TokenKind} (h : s.front = some kind) :
    ∃ t, t.kind = kind ∧ peek s = .ok (t, s) := by
  obtain ⟨pending, finish⟩ := s
  match pending with
  | [] => exact ⟨⟨.endOfInput, finish⟩, Option.some.inj h, rfl⟩
  | .ok t :: _ => exact ⟨t, Option.some.inj h, rfl⟩
  | .error _ :: _ => cases h

theorem peek_eq_ok {t : Token} (h : peek s = .ok (t, s')) : s' = s ∧ s.front = some t.kind := by
  obtain ⟨pending, finish⟩ := s
  match pending with
  | [] => cases h; exact ⟨rfl, rfl⟩
  | .ok t :: _ => cases h; exact ⟨rfl, rfl⟩
  | .error _ :: _ => cases h

theorem peek_bind_eq_ok {f : Token → Parser β} {b : β} (h : (peek >>= f) s = .ok (b, s')) :
    ∃ t, s.front = some t.kind ∧ f t s = .ok (b, s') := by
  obtain ⟨t, s₁, hp, hf⟩ := bind_eq_ok h
  obtain ⟨rfl, hfront⟩ := peek_eq_ok hp
  exact ⟨t, hfront, hf⟩

/-- a token that has been taken stood in front, unless it is the end -/
theorem next_eq_ok {t : Token} (h : next s = .ok (t, s')) :
    s = s'.report (.ok t) ∨ (t.kind = .endOfInput ∧ s' = s ∧ s.pending = []) := by
  obtain ⟨pending, finish⟩ := s
  match pending with
  | [] => cases h; exact .inr ⟨rfl, rfl, rfl⟩
  | .ok t :: _ => cases h; exact .inl rfl
  | .error _ :: _ => cases h

theorem next_eq_ok_of_ne {t : Token} (h : next s = .ok (t, s')) (hk : t.kind ≠ .endOfInput) :
    s = s'.report (.ok t) := by
  rcases next_eq_ok h with h | ⟨h, -⟩
  · exact h
  · exact absurd h hk

/-- the token that has been looked at is the one that is taken -/
theorem next_of_front {t : Token} {kind : TokenKind} (h : next s = .ok (t, s'))
    (hf : s.front = some kind) (hk : kind ≠ .endOfInput) : s = s'.report (.ok t) ∧ t.kind = kind := by
  rcases next_eq_ok h with rfl | ⟨-, -, hnil⟩
  · exact ⟨rfl, Option.some.inj hf⟩
  · rw [front, hnil] at hf
    exact absurd (Option.some.inj hf).symm hk

theorem peekIsSymbol_of_front {kind : TokenKind} (h : s.front = some kind) (c : Char) :
    peekIsSymbol c s = .ok (kind == .symbol c, s) := by
  obtain ⟨t, rfl, hp⟩ := peek_of_front h
  exact bind_of_ok hp

theorem eatSymbol_report {t : Token} {c : Char} (ht : t.kind = .symbol c) (s : TokenStream) :
    eatSymbol c (s.report (.ok t)) = .ok (true, s) := by
  have hp := peekIsSymbol_of_front (front_report t s) c
  rw [ht, beq_self_eq_true] at hp
  unfold eatSymbol
  rw [bind_of_ok hp]
  rfl

theorem eatSymbol_of_front {kind : TokenKind} {c : Char} (h : s.front = some kind)
    (hk : kind ≠ .symbol c) : eatSymbol c s = .ok (false, s) := by
  have hp := peekIsSymbol_of_front h c
  rw [beq_eq_false_iff_ne.mpr hk] at hp
  unfold eatSymbol
  rw [bind_of_ok hp]
  rfl

theorem expectSymbol_report {t : Token} {c : Char} (ht : t.kind = .symbol c) (s : TokenStream) :
    expectSymbol c (s.report (.ok t)) = .ok ((), s) := by
  have hc : t.isSymbol c = true := by rw [Token.isSymbol, ht, beq_self_eq_true]
  unfold expectSymbol
  rw [bind_of_ok (next_report t s), hc]
  rfl

theorem expectName_report {t : Token} {w : String} (ht : t.kind = .word w)
    (hw : isReserved w = false) (expected : Expectation) (s : TokenStream) :
    expectName expected (s.report (.ok t)) = .ok ((w, t.location), s) := by
  unfold expectName
  rw [bind_of_ok (next_report t s), ht]
  simp only [hw]
  rfl

theorem expectMember_report {t : Token} {w : String} (ht : t.kind = .word w) (s : TokenStream) :
    expectMember (s.report (.ok t)) = .ok (w, s) := by
  unfold expectMember
  rw [bind_of_ok (next_report t s), ht]
  rfl

theorem isKeyword_of_kind {t : Token} {w : String} (ht : t.kind = .word w) (keyword : String) :
    t.isKeyword keyword = Text.sameWord w keyword := by
  rw [Token.isKeyword, ht]
  rfl

theorem expectKeyword_report {t : Token} {w keyword : String} (ht : t.kind = .word w)
    (hw : Text.sameWord w keyword = true) (s : TokenStream) :
    expectKeyword keyword (s.report (.ok t)) = .ok ((), s) := by
  unfold expectKeyword
  rw [bind_of_ok (next_report t s), isKeyword_of_kind ht, hw]
  rfl

theorem peekIsKeyword_of_front {kind : TokenKind} (h : s.front = some kind) (keyword : String) :
    peekIsKeyword keyword s = .ok (kind.isKeyword keyword, s) := by
  obtain ⟨t, rfl, hp⟩ := peek_of_front h
  exact bind_of_ok hp

theorem eatKeyword_report {t : Token} {w keyword : String} (ht : t.kind = .word w)
    (hw : Text.sameWord w keyword = true) (s : TokenStream) :
    eatKeyword keyword (s.report (.ok t)) = .ok (true, s) := by
  have hp := peekIsKeyword_of_front (front_report t s) keyword
  rw [show t.kind.isKeyword keyword = true from (isKeyword_of_kind ht keyword).trans hw] at hp
  unfold eatKeyword
  rw [bind_of_ok hp]
  rfl

theorem eatKeyword_of_front {kind : TokenKind} {keyword : String} (h : s.front = some kind)
    (hk : kind.isKeyword keyword = false) : eatKeyword keyword s = .ok (false, s) := by
  have hp := peekIsKeyword_of_front h keyword
  rw [hk] at hp
  unfold eatKeyword
  rw [bind_of_ok hp]
  rfl

theorem endOfStatement_report {t : Token} (ht : t.kind = .symbol ':') (s : TokenStream) :
    endOfStatement (s.report (.ok t)) = .ok ((), s) := by
  have hc : t.isSymbol ':' = true := by rw [Token.isSymbol, ht, beq_self_eq_true]
  unfold endOfStatement
  rw [bind_of_ok (peek_report t s), hc]
  rfl

theorem expectEnd_report {t u : Token} {w word : String} (ht : t.kind = .word "end")
    (hu : u.kind = .word w) (hw : Text.sameWord w word = true) (s : TokenStream) :
    expectEnd word ((s.report (.ok u)).report (.ok t)) = .ok ((), s) := by
  unfold expectEnd
  rw [bind_of_ok (expectKeyword_report ht (Text.sameWord_refl _) _),
    bind_of_ok (next_report u s), isKeyword_of_kind hu, hw]
  rfl

/-! ## what has been taken -/

theorem isSymbol_iff {t : Token} {c : Char} : t.isSymbol c = true ↔ t.kind = .symbol c := by
  rw [Token.isSymbol, beq_iff_eq]

theorem eatSymbol_eq_ok {c : Char} {b : Bool} (h : eatSymbol c s = .ok (b, s')) :
    (b = true ∧ ∃ t, t.kind = .symbol c ∧ s = s'.report (.ok t))
      ∨ (b = false ∧ s' = s ∧ ∃ kind, s.front = some kind ∧ kind ≠ .symbol c) := by
  unfold eatSymbol at h
  obtain ⟨b', s1, hpeek, hrest⟩ := bind_eq_ok h
  obtain ⟨t, hf, hb⟩ := peek_bind_eq_ok hpeek
  cases hb
  cases hc : t.isSymbol c with
  | true =>
    rw [hc] at hrest
    obtain ⟨u, s2, hn, hret⟩ := bind_eq_ok hrest
    cases hret
    rw [isSymbol_iff.mp hc] at hf
    obtain ⟨rfl, hu⟩ := next_of_front hn hf (by simp)
    exact .inl ⟨rfl, u, hu, rfl⟩
  | false =>
    rw [hc] at hrest
    cases hrest
    refine .inr ⟨rfl, rfl, t.kind, hf, ?_⟩
    intro ht
    rw [isSymbol_iff.mpr ht] at hc
    cases hc

theorem expectSymbol_eq_ok {c : Char} {u : Unit} (h : expectSymbol c s = .ok (u, s')) :
    ∃ t, t.kind = .symbol c ∧ s = s'.report (.ok t) := by
  unfold expectSymbol at h
  obtain ⟨t, s1, hn, h⟩ := bind_eq_ok h
  cases hc : t.isSymbol c with
  | false =>
    rw [hc] at h
    cases h
  | true =>
    rw [hc] at h
    cases h
    have ht := isSymbol_iff.mp hc
    exact ⟨t, ht, next_eq_ok_of_ne hn (by rw [ht]; simp)⟩

theorem expectName_eq_ok {expected : Expectation} {w : String} {loc : Location}
    (h : expectName expected s = .ok ((w, loc), s')) :
    ∃ t, t.kind = .word w ∧ isReserved w = false ∧ s = s'.report (.ok t) := by
  unfold expectName at h
  obtain ⟨t, s1, hn, h⟩ := bind_eq_ok h
  cases ht : t.kind with
  | word w' =>
    simp only [ht] at h
    cases hr : isReserved w' with
    | true =>
      rw [hr] at h
      cases h
    | false =>
      rw [hr] at h
      cases h
      exact ⟨t, ht, hr, next_eq_ok_of_ne hn (by rw [ht]; simp)⟩
  | _ =>
    simp only [ht] at h
    cases h

theorem expectMember_eq_ok {w : String} (h : expectMember s = .ok (w, s')) :
    ∃ t, t.kind = .word w ∧ s = s'.report (.ok t) := by
  unfold expectMember at h
  obtain ⟨t, s1, hn, h⟩ := bind_eq_ok h
  cases ht : t.kind with
  | word w' =>
    simp only [ht] at h
    cases h
    exact ⟨t, ht, next_eq_ok_of_ne hn (by rw [ht]; simp)⟩
  | _ =>
    simp only [ht] at h
    cases h

theorem endOfStatement_eq_ok {u : Unit} (h : endOfStatement s = .ok (u, s')) :
    ∃ kind, s.front = some kind ∧ kind.endsStatement = true := by
  obtain ⟨t, hf, hrest⟩ := peek_bind_eq_ok h
  refine ⟨t.kind, hf, ?_⟩
  cases hc : t.isSymbol ':' with
  | true =>
    rw [isSymbol_iff.mp hc]
    rfl
  | false =>
    rw [hc] at hrest
    cases hend : t.endsStatement with
    | true => exact hend
    | false =>
      rw [hend] at hrest
      cases hrest

/-! ## repetition -/

theorem collect_of_none {item : Parser (Option α)} (h : item s = .ok (none, s')) :
    collect item s = .ok ([], s') := by
  rw [collect_eq, h]

theorem collect_of_error {item : Parser (Option α)} {e : ParseError} (h : item s = .error e) :
    collect item s = .error e := by
  rw [collect_eq, h]

/-- a round that takes a token is followed by all other rounds -/
theorem collect_of_some {item : Parser (Option α)} {a : α} (h : item s = .ok (some a, s'))
    (hs : s'.size < s.size) : collect item s = ((a :: ·) <$> collect item) s' := by
  rw [collect_eq, h]
  simp only [size] at hs
  simp only [hs, if_true]
  show _ = ((fun x => (a :: x.1, x.2)) <$> collect item s')
  cases collect item s' with
  | error e => rfl
  | ok r => rfl

/-- what is done with all results of a repetition, after its first round -/
theorem collect_bind_of_some {item : Parser (Option α)} {g : List α → Parser β} {a : α}
    (h : item s = .ok (some a, s')) (hs : s'.size < s.size) :
    (collect item >>= g) s = (collect item >>= fun as => g (a :: as)) s' := by
  show (collect item s >>= fun x => g x.1 x.2) = (collect item s' >>= fun x => g (a :: x.1) x.2)
  rw [collect_of_some h hs]
  show ((fun x => (a :: x.1, x.2)) <$> collect item s') >>= _ = _
  cases collect item s' with
  | error e => rfl
  | ok r => rfl

theorem collect_eq_ok {item : Parser (Option α)} {as : List α} (h : collect item s = .ok (as, s')) :
    (as = [] ∧ item s = .ok (none, s'))
      ∨ ∃ a as' s₁, as = a :: as' ∧ item s = .ok (some a, s₁) := by
  cases hi : item s with
  | error e =>
    rw [collect_of_error hi] at h
    cases h
  | ok r =>
    obtain ⟨o, s₁⟩ := r
    cases o with
    | none =>
      rw [collect_of_none hi] at h
      cases h
      exact .inl ⟨rfl, rfl⟩
    | some a =>
      right
      rw [collect_eq, hi] at h
      by_cases hs : s₁.pending.length < s.pending.length
      · simp only [hs, if_true] at h
        cases hc : collect item s₁ with
        | error e =>
          rw [hc] at h
          cases h
        | ok r =>
          rw [hc] at h
          cases h
          exact ⟨a, r.1, s₁, rfl, rfl⟩
      · simp only [hs, if_false] at h
        cases h
        exact ⟨a, [], s', rfl, rfl⟩

/-- what a repetition has done: rounds that found something and took a token, then a round that
found nothing or took nothing -/
theorem collect_induct {item : Parser (Option α)}
    {motive : List α → TokenStream → TokenStream → Prop}
    (done : ∀ {s s'}, item s = .ok (none, s') → motive [] s s')
    (round : ∀ {s s₁ s' a as}, item s = .ok (some a, s₁) → s₁.size < s.size →
      collect item s₁ = .ok (as, s') → motive as s₁ s' → motive (a :: as) s s')
    (stuck : ∀ {s s' a}, item s = .ok (some a, s') → ¬ s'.size < s.size → motive [a] s s')
    {as : List α} (h : collect item s = .ok (as, s')) : motive as s s' := by
  induction hn : s.size using Nat.strongRecOn generalizing s as with
  | ind n ih =>
    subst hn
    cases hi : item s with
    | error e =>
      rw [collect_of_error hi] at h
      cases h
    | ok r =>
      obtain ⟨a, s₁⟩ := r
      cases a with
      | none =>
        rw [collect_of_none hi] at h
        cases h
        exact done hi
      | some a =>
        by_cases hs : s₁.size < s.size
        · rw [collect_of_some hi hs] at h
          obtain ⟨as', s₂, hc, h⟩ := map_eq_ok h
          obtain ⟨rfl, rfl⟩ := h
          exact round hi hs hc (ih s₁.size hs hc rfl)
        · rw [collect_eq, hi] at h
          simp only [size] at hs
          simp only [hs, if_false] at h
          cases h
          exact stuck hi hs

end Parser

end PageScript
