import PageScript.Proofs.Parser.Misread
import PageScript.Proofs.Program.NestedLists

/-!
# Printing and reading back

An expression that has been read is printed as a text that reads as the same tree again, up to
locations (`Expr.ofText_source`).

A program is read back from its source text exactly if it is printable (`Block.printable_iff`).  A
program that has been read is well formed, and its calls are accepted, so all that can be in the
way is a call that does not reprint (`Block.ofText_source_iff`).

Programs that have been read are compared by their nested lists (`Block.sexpr_eq_iff`).
-/

namespace PageScript

open TokenStream PageScript.Parser

/-! ## expressions -/

/-- a stream that starts with tokens is made of them and a stream behind them -/
theorem TokenStream.eq_ahead_append {s : TokenStream} {ks : List TokenKind}
    {rs : List (Except ParseFault TokenKind)} (h : s.kinds = ks.map .ok ++ rs) :
    ∃ ts s', ts.map Token.kind = ks ∧ s'.kinds = rs ∧ s = ahead ts s' := by
  obtain ⟨pending, finish⟩ := s
  induction ks generalizing pending with
  | nil => exact ⟨[], ⟨pending, finish⟩, rfl, h, rfl⟩
  | cons kind ks ih =>
    obtain ⟨r, rest, rfl, hr, hrest⟩ := List.map_eq_cons_iff.mp h
    obtain ⟨ts, s', hts, hs', hs⟩ := ih rest hrest
    cases r with
    | error e => cases hr
    | ok t =>
      obtain rfl := Except.ok.inj hr
      refine ⟨t :: ts, s', by rw [List.map_cons, hts], hs', ?_⟩
      rw [ahead_cons, ← hs]
      rfl

theorem TokenStream.eq_end_of_kinds {s : TokenStream} (h : s.kinds = []) : s = ⟨[], s.finish⟩ := by
  obtain ⟨pending, finish⟩ := s
  obtain rfl : pending = [] := List.map_eq_nil_iff.mp h
  rfl

/-- a stream of tokens only is made of them and the end of the input -/
theorem TokenStream.eq_ahead_of_kinds {s : TokenStream} {ks : List TokenKind}
    (h : s.kinds = ks.map .ok) :
    ∃ ts finish, ts.map Token.kind = ks ∧ s = ahead ts ⟨[], finish⟩ := by
  obtain ⟨ts, s', hts, hs', hs⟩ := eq_ahead_append (h.trans (List.append_nil _).symm)
  exact ⟨ts, s'.finish, hts, hs.trans (by rw [← eq_end_of_kinds hs'])⟩

theorem TokenStream.stops_nil (finish : Location) (gs : List OperatorGroup) :
    Stops gs ⟨[], finish⟩ := by
  refine ⟨.endOfInput, rfl, ?_⟩
  simp [TokenKind.stops, OperatorGroup.takes]

theorem Expr.ofText_of_kinds {name text : String} {e : Expr} (hs : e.spelled = true)
    (hc : e.canonical = true) (hn : e.nesting < maxNesting)
    (hk : (TokenStream.ofText name .code text).kinds = e.tokens.map .ok) :
    ∃ e', Expr.ofText name text = .ok e' ∧ e'.bare = e.bare := by
  obtain ⟨ts, finish, hts, hstream⟩ := eq_ahead_of_kinds hk
  have hread : e.Read (maxNesting - 1) := Expr.read e hs hc (by omega)
  obtain ⟨e', he', hexpr⟩ := hread.reads hts (stops_nil _ precedence)
  refine ⟨e', run_eq_ok.mpr ⟨⟨[], finish⟩, ?_⟩, he'⟩
  rw [hstream]
  exact (bind_of_ok hexpr).trans rfl

/-- **An expression survives printing and reading.** -/
theorem Expr.ofText_source {name text : String} {e : Expr} (h : Expr.ofText name text = .ok e)
    (name' : String) : ∃ e', Expr.ofText name' e.source = .ok e' ∧ e'.bare = e.bare := by
  obtain ⟨s', -, htaken⟩ := Expr.taken_of_ofText h
  apply Expr.ofText_of_kinds htaken.spelled htaken.canonical htaken.depth_lt
  have hsource := @Expr.kinds_source e htaken.spelled [] trivial
  rw [List.append_nil, Scan.kinds_nil, List.append_nil] at hsource
  rw [kinds_ofText, hsource]

theorem Expr.ofText_source_negatedComparison :
    Expr.ofText "page" "Not f(1,) <> -x AND 2" = .ok negatedComparison
      ∧ ∃ e', Expr.ofText "again" negatedComparison.source = .ok e'
          ∧ e'.bare = negatedComparison.bare := by
  have h : Expr.ofText "page" "Not f(1,) <> -x AND 2" = .ok negatedComparison :=
    eq_ok_of_toOption (by decide +kernel)
  exact ⟨h, Expr.ofText_source h "again"⟩

/-! ## programs -/

/-- a program that has been read is well formed, and its calls are accepted -/
theorem Block.sound_of_ofText {name text : String} {mode : Mode} {b : Block}
    (h : Block.ofText name mode text = .ok b) : SoundBlock maxNesting b := by
  obtain ⟨s', hp⟩ := run_eq_ok.mp h
  obtain ⟨s₁, t, hb, -, -⟩ := toEnd_eq_ok hp
  exact (block_yields maxNesting _ _ _ (lexical_ofText name mode text) hb).1

theorem TokenStream.endsBlock_nil (finish : Location) : EndsBlock ⟨[], finish⟩ :=
  ⟨.endOfInput, rfl, rfl⟩

theorem Expr.scans_of_printsCall {k : Nat} {e : Expr} (h : e.printsCall k = true) :
    e.scans = true := by
  unfold Expr.printsCall at h
  rw [Expr.scans]
  cases htext : chunkText? e with
  | some text => rfl
  | none =>
    rw [htext] at h
    show e.spelled = true
    fun_cases Expr.printsLine k e with
    | case1 l l' names args =>
      simp only [Expr.printsLine, Bool.and_eq_true] at h
      rw [Expr.spelled, Expr.spelled, h.1.1.1.1, h.1.1.1.2]
      rfl
    | case2 l callee args hne =>
      simp only [Expr.printsLine.eq_2 k l callee args hne, Expr.fits, Bool.and_eq_true] at h
      exact h.1.1
    | case3 e hne hne' =>
      simp only [Expr.printsLine.eq_3 k e hne hne'] at h
      cases h

/-- a printable program is read back from its source text -/
theorem Block.ofText_of_printable {b : Block} (h : b.printable = true) (name : String) :
    ∃ b', Block.ofText name .code b.source = .ok b' ∧ b'.bare = b.bare := by
  simp only [Block.printable, Bool.and_eq_true] at h
  have hscans : b.everyCall scansCall maxNesting = true :=
    Block.everyCall_imp (fun he _ => Expr.scans_of_printsCall he) h.2 h.2
  have hkinds : (TokenStream.ofText name .code b.source).kinds = b.tokens.map .ok := by
    rw [kinds_ofText, Block.kinds_source h.1 hscans]
  obtain ⟨ts, finish, hts, hstream⟩ := eq_ahead_of_kinds hkinds
  obtain ⟨b', hb', hread⟩ := Block.read b h.1 h.2 hts (endsBlock_nil finish)
  refine ⟨b', run_eq_ok.mpr ⟨⟨[], finish⟩, ?_⟩, hb'⟩
  rw [hstream]
  exact (bind_of_ok hread).trans rfl

/-- a sound program that is read back from its source text has calls that reprint only -/
theorem Block.reprints_of_ofText {b b' : Block} {name : String} (hb : SoundBlock maxNesting b)
    (h : Block.ofText name .code b.source = .ok b') (hbare : b'.bare = b.bare) :
    b.everyCall Expr.reprints maxNesting = true := by
  have hscans : b.everyCall scansCall maxNesting = true :=
    Block.everyCall_imp (fun he _ => Expr.scans_of_accepted he) hb.2 hb.2
  have hkinds : (TokenStream.ofText name .code b.source).kinds = b.tokens.map .ok := by
    rw [kinds_ofText, Block.kinds_source hb.1 hscans]
  obtain ⟨ts, finish, hts, hstream⟩ := eq_ahead_of_kinds hkinds
  have hlex := lexical_ofText name .code b.source
  obtain ⟨s', hp⟩ := run_eq_ok.mp h
  obtain ⟨s₁, t, hread, -, -⟩ := toEnd_eq_ok hp
  rw [hstream] at hlex hread
  exact Block.readsBack b hb.1 hb.2 ts _ b' s₁ hts hlex hread hbare

theorem Block.printable_of_reprints {b : Block} (hb : SoundBlock maxNesting b)
    (hr : b.everyCall Expr.reprints maxNesting = true) : b.printable = true := by
  rw [Block.printable, hb.1, Block.printsCall_of_accepted hb.2 hr]
  rfl

/-- **A program is read back from its source text exactly if it is printable.** -/
theorem Block.printable_iff (name : String) (b : Block) :
    b.printable = true ↔ ∃ b', Block.ofText name .code b.source = .ok b' ∧ b'.bare = b.bare := by
  constructor
  · exact fun h => Block.ofText_of_printable h name
  · rintro ⟨b', hread, hbare⟩
    -- the program that has been read has the same source text, and is read back from it
    have hb' := Block.sound_of_ofText hread
    have hsource : b'.source = b.source := by rw [← Block.source_bare, hbare, Block.source_bare]
    rw [← hsource] at hread
    have hprintable := Block.printable_of_reprints hb' (Block.reprints_of_ofText hb' hread rfl)
    rw [← Block.printable_bare, ← hbare, Block.printable_bare]
    exact hprintable

/-- **A program that has been read survives printing and reading exactly if its calls reprint.** -/
theorem Block.ofText_source_iff {name text : String} {mode : Mode} {b : Block}
    (h : Block.ofText name mode text = .ok b) :
    (∃ b', Block.ofText "again" .code b.source = .ok b' ∧ b'.sexpr = b.sexpr
      ∧ b'.source = b.source) ↔ b.everyCall Expr.reprints maxNesting = true := by
  have hb := Block.sound_of_ofText h
  constructor
  · rintro ⟨b', hread, hsexpr, -⟩
    exact Block.reprints_of_ofText hb hread
      (Block.bare_eq_of_sexpr (Block.sound_of_ofText hread) hb hsexpr)
  · intro hr
    obtain ⟨b', hread, hbare⟩ :=
      Block.ofText_of_printable (Block.printable_of_reprints hb hr) "again"
    refine ⟨b', hread, ?_, ?_⟩
    · rw [← Block.sexpr_bare, hbare, Block.sexpr_bare]
    · rw [← Block.source_bare, hbare, Block.source_bare]

/-- the program of `f (1), 2`, whose first argument is in parentheses -/
def copiedArgument : Block :=
  ⟨⟨"page", 1, 1⟩, [.expr ⟨"page", 1, 1⟩ (.call ⟨"page", 1, 1⟩ (.path ⟨"page", 1, 1⟩ ["f"])
    [.paren ⟨"page", 1, 3⟩ (.literal ⟨"page", 1, 4⟩ (.integer 1)),
      .literal ⟨"page", 1, 8⟩ (.integer 2)])]⟩

theorem Block.ofText_source_iff_copiedArgument :
    Block.ofText "page" .code "f (1), 2" = .ok copiedArgument
      ∧ ∃ b', Block.ofText "again" .code copiedArgument.source = .ok b'
          ∧ b'.sexpr = copiedArgument.sexpr ∧ b'.source = copiedArgument.source := by
  have h : Block.ofText "page" .code "f (1), 2" = .ok copiedArgument :=
    eq_ok_of_toOption (by decide +kernel)
  exact ⟨h, (Block.ofText_source_iff h).mpr (by decide)⟩

/-- the program of `call f((1) = 2)`, which is printed as `f (1) = 2` -/
def comparedArgument : Block :=
  ⟨⟨"page", 1, 1⟩, [.expr ⟨"page", 1, 6⟩ (.call ⟨"page", 1, 6⟩ (.path ⟨"page", 1, 6⟩ ["f"])
    [.binary ⟨"page", 1, 12⟩ .eq
      (.paren ⟨"page", 1, 8⟩ (.literal ⟨"page", 1, 9⟩ (.integer 1)))
      (.literal ⟨"page", 1, 14⟩ (.integer 2))])]⟩

/-- the source text of the comparison is read as an assignment -/
theorem Block.comparedArgument_misread :
    Block.ofText "page" .code "call f((1) = 2)" = .ok comparedArgument
      ∧ ¬ ∃ b', Block.ofText "again" .code comparedArgument.source = .ok b'
          ∧ b'.sexpr = comparedArgument.sexpr ∧ b'.source = comparedArgument.source := by
  refine ⟨eq_ok_of_toOption (by decide +kernel), ?_⟩
  rintro ⟨b', hread, hsexpr, -⟩
  have hassign : Block.ofText "again" .code comparedArgument.source
      = .ok ⟨⟨"again", 1, 1⟩, [.assign ⟨"again", 1, 7⟩
        (.call ⟨"again", 1, 1⟩ (.path ⟨"again", 1, 1⟩ ["f"])
          [.literal ⟨"again", 1, 4⟩ (.integer 1)])
        (.literal ⟨"again", 1, 9⟩ (.integer 2))]⟩ := eq_ok_of_toOption (by decide +kernel)
  rw [hassign] at hread
  obtain rfl := Except.ok.inj hread
  exact absurd hsexpr (by decide +kernel)

/-! ## comparison -/

/-- **Two programs that have been read have the same nested lists exactly if they are equal up to
locations.** -/
theorem Block.sexpr_eq_iff {name name' text text' : String} {mode mode' : Mode} {b b' : Block}
    (h : Block.ofText name mode text = .ok b) (h' : Block.ofText name' mode' text' = .ok b') :
    b.sexpr = b'.sexpr ↔ b.bare = b'.bare := by
  constructor
  · exact Block.bare_eq_of_sexpr (Block.sound_of_ofText h) (Block.sound_of_ofText h')
  · intro heq
    rw [← Block.sexpr_bare b, heq, Block.sexpr_bare]

/-- the program of `s = "a "" (b" : t = -1 - x`, its statements so many columns to the right -/
def quotedAndSigned (shift : Nat) : Block :=
  ⟨⟨"page", 1, 1⟩,
    [.assign ⟨"page", 1, 3 + shift⟩ (.path ⟨"page", 1, 1 + shift⟩ ["s"])
      (.literal ⟨"page", 1, 5 + shift⟩ (.string "a \" (b")),
    .assign ⟨"page", 1, 19 + shift⟩ (.path ⟨"page", 1, 17 + shift⟩ ["t"])
      (.binary ⟨"page", 1, 24 + shift⟩ .sub
        (.unary ⟨"page", 1, 21 + shift⟩ .neg (.literal ⟨"page", 1, 22 + shift⟩ (.integer 1)))
        (.path ⟨"page", 1, 26 + shift⟩ ["x"]))]⟩

/-- a script and a page with the same program: a quote and a parenthesis in a string, and two
minus signs -/
theorem Block.sexpr_eq_iff_quotedAndSigned :
    Block.ofText "page" .code "s = \"a \"\" (b\" : t = -1 - x" = .ok (quotedAndSigned 0)
      ∧ Block.ofText "page" .template "<%s = \"a \"\" (b\" : t = -1 - x%>"
        = .ok (quotedAndSigned 2)
      ∧ (quotedAndSigned 0).sexpr = (quotedAndSigned 2).sexpr
      ∧ (quotedAndSigned 0).bare = (quotedAndSigned 2).bare := by
  have hcode : Block.ofText "page" .code "s = \"a \"\" (b\" : t = -1 - x"
      = .ok (quotedAndSigned 0) := eq_ok_of_toOption (by decide +kernel)
  have hpage : Block.ofText "page" .template "<%s = \"a \"\" (b\" : t = -1 - x%>"
      = .ok (quotedAndSigned 2) := eq_ok_of_toOption (by decide +kernel)
  have hsexpr : (quotedAndSigned 0).sexpr = (quotedAndSigned 2).sexpr := by decide +kernel
  exact ⟨hcode, hpage, hsexpr, (Block.sexpr_eq_iff hcode hpage).mp hsexpr⟩

end PageScript
