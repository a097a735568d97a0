import PageScript.Proofs.Parser.PathStatement
import PageScript.Proofs.RoundTrip

/-!
# What a statement that starts with a path is

A path at the start of a statement may be assigned to or called, and parentheses behind it may be
an argument list, the start of the first argument, or a mistake.  `PathReadings` lists the texts and
what they are read as: inside a program, in front of whatever ends a statement, and as a whole
program (`ReadAs`).

* `Scan.front`           the token that a text starts with;
* `readAs_of_readTo`     from the tokens of a statement to its text;
* `path_readings`        all the texts are read as listed.
-/

namespace PageScript

open TokenStream PageScript.Parser

/-! ## the front of a text -/

namespace Scan

/-- the token that comes next in a text, if none but a token or the end does -/
def front (cs : List Char) : Option TokenKind :=
  match kinds cs with
  | [] => some .endOfInput
  | .ok kind :: _ => some kind
  | .error _ :: _ => none

/-- a statement ends in front of the text -/
def EndsStatement (cs : List Char) : Prop :=
  ∃ kind, front cs = some kind ∧ kind.endsStatement = true

theorem endsStatement_nil : EndsStatement [] := by
  refine ⟨.endOfInput, ?_, rfl⟩
  rw [front, kinds_nil]

theorem front_of_kinds {s : TokenStream} {cs : List Char} (h : s.kinds = kinds cs) :
    s.front = front cs := by
  obtain ⟨pending, finish⟩ := s
  rw [front, ← h]
  match pending with
  | [] => rfl
  | .ok _ :: _ => rfl
  | .error _ :: _ => rfl

theorem not_endsStatement_of_code {cs : List Char}
    (h : ∀ kind, (code cs).result = .ok kind → kind.endsStatement = false) :
    ¬ EndsStatement cs := by
  rintro ⟨kind, hf, hend⟩
  cases hatEnd : (code cs).atEnd with
  | true =>
    have hresult : (code cs).result = .ok .endOfInput := by
      rw [atEnd] at hatEnd
      split at hatEnd
      · assumption
      · cases hatEnd
    exact absurd (h _ hresult) (by decide)
  | false =>
    have hkinds : kinds cs = (code cs).result :: kinds (code cs).rest := by
      rw [kinds, dif_neg (by rw [hatEnd]; decide)]
    rw [front, hkinds] at hf
    cases hr : (code cs).result with
    | error fault =>
      rw [hr] at hf
      cases hf
    | ok kind' =>
      rw [hr] at hf
      obtain rfl := Option.some.inj hf
      rw [h _ hr] at hend
      cases hend

theorem isNameStart_or_isDigit {c : Char} (h : isNameChar c = true) :
    isNameStart c = true ∨ Text.isDigit c = true := by
  simp only [isNameChar, Char.isAlphanum, Bool.or_eq_true] at h
  rcases h with (halpha | hdigit) | hscore
  · left
    rw [isNameStart, halpha]
    rfl
  · right
    simp only [Char.isDigit, Bool.and_eq_true, decide_eq_true_eq] at hdigit
    simp only [Text.isDigit, Bool.and_eq_true, decide_eq_true_eq]
    exact hdigit
  · left
    rw [isNameStart, hscore, Bool.or_true]

/-- in front of a text that ends a statement every token ends -/
theorem EndsStatement.breaks {cs : List Char} (h : EndsStatement cs) : Breaks cs := by
  cases cs with
  | nil => trivial
  | cons c cs =>
    refine ⟨?_, ?_⟩
    · cases hc : isNameChar c with
      | false => rfl
      | true =>
        refine absurd h (not_endsStatement_of_code fun kind hkind => ?_)
        rcases isNameStart_or_isDigit hc with hstart | hdigit
        · rw [code_of_isNameStart hstart] at hkind
          rw [← Except.ok.inj hkind]
          rfl
        · rw [code_of_isDigit hdigit, integer] at hkind
          dsimp only at hkind
          split at hkind
          · rw [← Except.ok.inj hkind]
            rfl
          · cases hkind
    · rintro rfl
      refine absurd h (not_endsStatement_of_code fun kind hkind => ?_)
      rw [code_cons (by decide), if_neg (by decide), if_neg (by decide), if_neg (by decide),
        if_pos rfl, string] at hkind
      dsimp only at hkind
      split at hkind
      · rw [← Except.ok.inj hkind]
        rfl
      · cases hkind

end Scan

/-! ## the tokens of a text with their places -/

section

variable {name : String} {p : Position} {cs : List Char}

theorem TokenStream.ofCode_sign {c : Char} (hc : Scan.isSign c = true) :
    ofCode name p (c :: cs)
      = (ofCode name (p.after [c]) cs).report (.ok ⟨.symbol c, p.locate name⟩) :=
  ofCode_of_code (Scan.code_of_isSign hc cs) (by simp)

theorem TokenStream.ofCode_word {w : String} (hw : isWord w = true) (hcs : Scan.Breaks cs) :
    ofCode name p (w.toList ++ cs)
      = (ofCode name (p.after w.toList) cs).report (.ok ⟨.word w, p.locate name⟩) :=
  ofCode_of_code (Scan.code_of_isWord hw hcs) (by simp)

/-- the tokens of a path, and the place behind it -/
theorem TokenStream.ofCode_dotted (name : String) (p : Position) {names : List String}
    (h : isPath names = true) (hcs : Scan.Breaks cs) :
    ∃ ts, ts.map Token.kind = pathTokens names ∧
      ofCode name p ((dotted names).toList ++ cs)
        = ahead ts (ofCode name (p.after (dotted names).toList) cs) := by
  cases names with
  | nil => cases h
  | cons first members =>
    simp only [isPath, isName, Bool.and_eq_true] at h
    obtain ⟨⟨hfirst, -⟩, hmembers⟩ := h
    -- the members are read one after the other, wherever the first of them stands
    have htail : ∀ (ms : List String) (q : Position), ms.all isWord = true →
        Scan.Breaks ((ms.flatMap fun m => ".".toList ++ m.toList) ++ cs) ∧
        ∃ ts, ts.map Token.kind = ms.flatMap (fun m => [.symbol '.', .word m]) ∧
          ofCode name q ((ms.flatMap fun m => ".".toList ++ m.toList) ++ cs)
            = ahead ts (ofCode name (q.after (ms.flatMap fun m => ".".toList ++ m.toList)) cs) := by
      intro ms
      induction ms with
      | nil => exact fun q _ => ⟨hcs, [], rfl, rfl⟩
      | cons m ms ih =>
        intro q hms
        simp only [List.all_cons, Bool.and_eq_true] at hms
        obtain ⟨hbreaks, ts, hts, hread⟩ := ih ((q.after ['.']).after m.toList) hms.2
        refine ⟨breaks_cons (by decide) (by decide) _,
          ⟨.symbol '.', q.locate name⟩ :: ⟨.word m, (q.after ['.']).locate name⟩ :: ts, ?_, ?_⟩
        · rw [List.map_cons, List.map_cons, hts]
          rfl
        · have hsplit : ((m :: ms).flatMap fun m => ".".toList ++ m.toList) ++ cs
              = '.' :: (m.toList ++ ((ms.flatMap fun m => ".".toList ++ m.toList) ++ cs)) := by
            simp
          have hafter : q.after ((m :: ms).flatMap fun m => ".".toList ++ m.toList)
              = ((q.after ['.']).after m.toList).after
                (ms.flatMap fun m => ".".toList ++ m.toList) := by
            rw [← Position.after_append, ← Position.after_append]
            simp
          rw [hsplit, hafter, ofCode_sign (by decide), ofCode_word hms.1 hbreaks, hread]
          rfl
    obtain ⟨hbreaks, ts, hts, hread⟩ := htail members (p.after first.toList) hmembers
    refine ⟨⟨.word first, p.locate name⟩ :: ts, ?_, ?_⟩
    · rw [List.map_cons, hts]
      rfl
    · rw [dotted, toList_intercalate_cons, List.append_assoc, ofCode_word hfirst hbreaks, hread,
        Position.after_append]
      rfl

end

/-! ## from tokens to texts -/

/-- a text is read as a statement, up to locations: in front of the end of a statement, where `k`
levels of nesting are allowed, and as a whole program -/
structure ReadAs (k : Nat) (text : String) (st : Stmt) : Prop where
  within : ∀ (name : String) (p : Position) (rest : List Char) (blk : Parser Block),
    Scan.EndsStatement rest → ∃ st' s, st'.bare = st.bare ∧ s.kinds = Scan.kinds rest ∧
      someStatements (nested k) blk (ofCode name p (text.toList ++ rest))
        = (endOfStatement >>= fun _ => pure (some [st'])) s
  alone : ∀ name : String, ∃ b, Block.ofText name .code text = .ok b
    ∧ b.bare = ⟨default, [st.bare]⟩

section

variable {k : Nat} {ks : List TokenKind} {text : String} {st : Stmt}

theorem ReadAs.congr {st' : Stmt} (h : ReadAs k text st) (hst : st.bare = st'.bare) :
    ReadAs k text st' where
  within name p rest blk hrest := by
    obtain ⟨st₁, s, hst₁, hread⟩ := h.within name p rest blk hrest
    exact ⟨st₁, s, hst₁.trans hst, hread⟩
  alone name := by
    rw [← hst]
    exact h.alone name

theorem ReadTo.of_text (h : ReadTo k ks st)
    (htext : ∀ cs, Scan.Breaks cs →
      Scan.kinds (text.toList ++ cs) = ks.map .ok ++ Scan.kinds cs)
    (name : String) (p : Position) {rest : List Char} (blk : Parser Block)
    (hrest : Scan.EndsStatement rest) :
    ∃ ts st' s, ts.map Token.kind = ks ∧ st'.bare = st.bare ∧ s.kinds = Scan.kinds rest ∧
      ofCode name p (text.toList ++ rest) = ahead ts s ∧
      someStatements (nested k) blk (ahead ts s)
        = (endOfStatement >>= fun _ => pure (some [st'])) s := by
  obtain ⟨ts, s, hts, hs, hstream⟩ := eq_ahead_append
    ((kinds_ofCode name p (text.toList ++ rest)).trans (htext rest hrest.breaks))
  obtain ⟨kind, hf, hend⟩ := hrest
  obtain ⟨st', hst', hread⟩ := h ts s kind blk hts ((Scan.front_of_kinds hs).trans hf) hend
  exact ⟨ts, st', s, hts, hst', hs, hstream, hread⟩

theorem readAs_of_readTo (hne : ks ≠ []) (hk : k < maxNesting) (h : ∀ j, k ≤ j → ReadTo j ks st)
    (htext : ∀ cs, Scan.Breaks cs →
      Scan.kinds (text.toList ++ cs) = ks.map .ok ++ Scan.kinds cs) : ReadAs k text st where
  within name p rest blk hrest := by
    obtain ⟨ts, st', s, -, hst', hs, hstream, hread⟩ :=
      ReadTo.of_text (h k (Nat.le_refl k)) htext name p blk hrest
    exact ⟨st', s, hst', hs, by rw [hstream, hread]⟩
  alone name := by
    have hread := h (maxNesting - 1) (by omega)
    obtain ⟨ts, st', s, hts, hst', hs, hstream, hread⟩ :=
      ReadTo.of_text hread htext name .start (block (maxNesting - 1)) Scan.endsStatement_nil
    rw [List.append_nil] at hstream
    -- nothing is left behind the statement
    rw [Scan.kinds_nil] at hs
    have hround : someStatements (nested (maxNesting - 1)) (block (maxNesting - 1)) (ahead ts s)
        = .ok (some [st'], ⟨[], s.finish⟩) := by
      rw [hread, eq_end_of_kinds hs]
      rfl
    have hpos : 0 < ts.length := by
      rw [← List.length_map, hts]
      exact List.length_pos_iff.mpr hne
    have hsize : (⟨[], s.finish⟩ : TokenStream).size < (ahead ts s).size := by
      rw [size_ahead]
      exact Nat.lt_of_lt_of_le hpos (Nat.le_add_right _ _)
    have hfront : ∃ kind, (ahead ts s).front = some kind := by
      rw [eq_end_of_kinds hs]
      exact front_ahead_of_front ts (endsBlock_nil s.finish).front
    obtain ⟨loc, hblock⟩ :=
      block_of_rounds (.single hround hsize) (endsBlock_nil s.finish) hfront
    refine ⟨⟨loc, [st']⟩, run_eq_ok.mpr ⟨⟨[], s.finish⟩, ?_⟩, ?_⟩
    · show Block.parser (ofCode name .start text.toList) = _
      rw [hstream]
      exact (bind_of_ok hblock).trans rfl
    · rw [Block.bare, Stmt.bares, Stmt.bares, hst']

end

/-! ## the readings -/

/-- expressions with commas between them -/
def joined (es : List Expr) : String := ", ".intercalate (es.map Expr.source)

/-- what the statements are that start with a path, by what follows the path -/
structure PathReadings (k : Nat) (names : List String) (e e' : Expr) (es : List Expr) : Prop where
  /-- `v = e` -/
  assign : ReadAs k (dotted names ++ " = " ++ e.source) (.assign default (.path default names) e)
  /-- `v` -/
  bare : ReadAs k (dotted names) (callStatement default (.path default names) [])
  /-- `v()` -/
  emptyList : ReadAs k (dotted names ++ "()") (callStatement default (.path default names) [])
  /-- `v(es) = e` -/
  assignList : ReadAs k (dotted names ++ "(" ++ joined es ++ ") = " ++ e.source)
    (.assign default (.call default (.path default names) es) e)
  /-- `v (e)` -/
  paren : ReadAs k (dotted names ++ " (" ++ e.source ++ ")")
    (callStatement default (.path default names) [.paren default e])
  /-- `v (e), es` -/
  parenMore : ReadAs k (dotted names ++ " (" ++ e.source ++ "), " ++ joined es)
    (callStatement default (.path default names) (.paren default e :: es))
  /-- `v (e) op f` and `v (e) op f, es` -/
  operation : ∀ (op : BinaryOp) (name : String), op ≠ .eq →
    ∃ a, Expr.ofText name ("(" ++ e.source ++ ") " ++ op.symbol ++ " " ++ e'.source) = .ok a
      ∧ ReadAs k (dotted names ++ " (" ++ e.source ++ ") " ++ op.symbol ++ " " ++ e'.source)
        (callStatement default (.path default names) [a])
      ∧ ReadAs k (dotted names ++ " (" ++ e.source ++ ") " ++ op.symbol ++ " " ++ e'.source
          ++ ", " ++ joined es)
        (callStatement default (.path default names) (a :: es))
  /-- `v es`, if `es` does not start with parentheses -/
  list : (∀ first ∈ es.head?, first.source.toList.head? ≠ some '(') →
    ReadAs k (dotted names ++ " " ++ joined es)
      (callStatement default (.path default names) es)
  /-- `v(es)` with several expressions, at the end of the statement or at a comma -/
  refused : 2 ≤ es.length → ∀ (name : String) (p : Position) (rest : List Char)
      (blk : Parser Block),
    Scan.EndsStatement rest ∨ Scan.front rest = some (.symbol ',') →
    someStatements (nested k) blk
        (ofCode name p ((dotted names ++ "(" ++ joined es ++ ")").toList ++ rest))
      = .error ⟨(p.after (dotted names).toList).locate name, .parenthesizedSubCall⟩
  /-- and so for a whole program that starts like this -/
  refusedAlone : 2 ≤ es.length → ∀ name rest : String,
    Scan.EndsStatement rest.toList ∨ Scan.front rest.toList = some (.symbol ',') →
    Block.ofText name .code (dotted names ++ "(" ++ joined es ++ ")" ++ rest)
      = .error ⟨(Position.start.after (dotted names).toList).locate name, .parenthesizedSubCall⟩

theorem kinds_joined {es : List Expr} (hes : Expr.allSpelled es = true) {cs : List Char}
    (hcs : Scan.Breaks cs) :
    Scan.kinds ((joined es).toList ++ cs) = (Expr.argTokens es).map .ok ++ Scan.kinds cs := by
  rw [joined, ← Expr.sources_eq_map]
  exact Expr.kinds_args es hes hcs

/-- the text of an expression that starts with parentheses starts with the opening one -/
theorem Expr.head_of_opening : ∀ {e a : Expr}, e.opening? = some a →
    e.source.toList.head? = some '('
  | .paren _ inner, _, _ => by
    rw [Expr.source]
    simp
  | .binary _ op left right, _, h => by
    have hleft := Expr.head_of_opening (e := left) h
    rw [Expr.source]
    simp [List.head?_append, hleft]
  | .call _ callee args, _, h => by
    have hcallee := Expr.head_of_opening (e := callee) h
    rw [Expr.source]
    simp [List.head?_append, hcallee]

section

variable {k : Nat} {names : List String} {e e' : Expr} {es : List Expr}

/-! ### one text after the other -/

theorem readAs_assign (hk : k < maxNesting) (hnames : isPath names = true)
    (he : e.fits k = true) :
    ReadAs k (dotted names ++ " = " ++ e.source)
      (.assign default (.path default names) e) := by
  have hspelled := spelled_of_fits he
  refine readAs_of_readTo (by simp) hk
    (fun j hj => readTo_assign hnames (Expr.fits_mono hj he)) fun cs hcs => ?_
  have hsplit : (dotted names ++ " = " ++ e.source).toList ++ cs
      = (dotted names).toList ++ ' ' :: '=' :: ' ' :: (e.source.toList ++ cs) := by simp
  rw [hsplit, kinds_dotted hnames (breaks_blank _), Scan.kinds_blank,
    Scan.kinds_sign (by decide), Scan.kinds_blank, Expr.kinds_source e hspelled hcs]
  simp

theorem readAs_bare (hk : k < maxNesting) (hnames : isPath names = true) :
    ReadAs k (dotted names) (callStatement default (.path default names) []) := by
  have hread : ∀ j, k ≤ j → ReadTo j (pathTokens names ++ Expr.argTokens [])
      (callStatement default (.path default names) []) :=
    fun j _ => readTo_call hnames (fittingArgs_nil j) fun _ h => nomatch h
  refine readAs_of_readTo ?_ hk hread fun cs hcs => ?_
  · cases names with
    | nil => cases hnames
    | cons name members => simp [pathTokens]
  · rw [kinds_dotted hnames hcs, Expr.argTokens, List.append_nil]

theorem readAs_emptyList (hk : k < maxNesting) (hnames : isPath names = true) :
    ReadAs k (dotted names ++ "()") (callStatement default (.path default names) []) := by
  refine readAs_of_readTo (by simp) hk (fun j _ => readTo_emptyList hnames) fun cs hcs => ?_
  have hsplit : (dotted names ++ "()").toList ++ cs
      = (dotted names).toList ++ '(' :: ')' :: cs := by simp
  rw [hsplit, kinds_dotted hnames (breaks_cons (by decide) (by decide) _),
    Scan.kinds_sign (by decide), Scan.kinds_sign (by decide)]
  simp

theorem readAs_assignList (hk : k < maxNesting) (hnames : isPath names = true)
    (he : e.fits k = true) (hes : FittingArgs k es) :
    ReadAs k (dotted names ++ "(" ++ joined es ++ ") = " ++ e.source)
      (.assign default (.call default (.path default names) es) e) := by
  have hspelled := spelled_of_fits he
  refine readAs_of_readTo (by simp) hk
    (fun j hj => readTo_assignList hnames (Expr.fits_mono hj he) (hes.mono hj)) fun cs hcs => ?_
  have hsplit : (dotted names ++ "(" ++ joined es ++ ") = " ++ e.source).toList ++ cs
      = (dotted names).toList ++ '(' :: ((joined es).toList
        ++ ')' :: ' ' :: '=' :: ' ' :: (e.source.toList ++ cs)) := by simp
  rw [hsplit, kinds_dotted hnames (breaks_cons (by decide) (by decide) _),
    Scan.kinds_sign (by decide), kinds_joined hes.1 (breaks_cons (by decide) (by decide) _),
    Scan.kinds_sign (by decide), Scan.kinds_blank, Scan.kinds_sign (by decide),
    Scan.kinds_blank, Expr.kinds_source e hspelled hcs]
  simp

/-- a call whose first argument starts with parentheses: the text of that argument, and the text
behind it -/
theorem readAs_opened {first a : Expr} (hk : k < maxNesting) (hnames : isPath names = true)
    (hopen : first.opening? = some a) (hclash : first.clashes = false)
    (hfirst : FittingFirst k first) (hes : FittingArgs k es) {text tail : String}
    {ks : List TokenKind} (hks : IsTail ks es)
    (htext : ∀ cs, Scan.Breaks cs →
      Scan.kinds (text.toList ++ cs) = first.tokens.map .ok ++ Scan.kinds cs)
    (hbreaks : ∀ cs, Scan.Breaks cs → Scan.Breaks (tail.toList ++ cs))
    (htail : ∀ cs, Scan.Breaks cs →
      Scan.kinds (tail.toList ++ cs) = ks.map .ok ++ Scan.kinds cs) :
    ReadAs k (dotted names ++ " " ++ text ++ tail)
      (callStatement default (.path default names) (first :: es)) := by
  refine readAs_of_readTo ?_ hk (fun j hj => readTo_opened hnames hopen hclash
    ⟨hfirst.1, hfirst.2.1, Nat.lt_of_lt_of_le hfirst.2.2 hj⟩ (hes.mono hj) hks) fun cs hcs => ?_
  · rw [Expr.tokens_of_opening hopen]
    simp
  · have hsplit : (dotted names ++ " " ++ text ++ tail).toList ++ cs
        = (dotted names).toList ++ ' ' :: (text.toList ++ (tail.toList ++ cs)) := by simp
    rw [hsplit, kinds_dotted hnames (breaks_blank _), Scan.kinds_blank,
      htext _ (hbreaks cs hcs), htail cs hcs]
    simp

theorem readAs_openedOne {first a : Expr} (hk : k < maxNesting) (hnames : isPath names = true)
    (hopen : first.opening? = some a) (hclash : first.clashes = false)
    (hfirst : FittingFirst k first) {text : String}
    (htext : ∀ cs, Scan.Breaks cs →
      Scan.kinds (text.toList ++ cs) = first.tokens.map .ok ++ Scan.kinds cs) :
    ReadAs k (dotted names ++ " " ++ text)
      (callStatement default (.path default names) [first]) := by
  have h : ReadAs k (dotted names ++ " " ++ text ++ "")
      (callStatement default (.path default names) [first]) :=
    readAs_opened hk hnames hopen hclash hfirst (fittingArgs_nil k) (.inl ⟨rfl, rfl⟩) htext
      (fun _ hcs => hcs) fun _ _ => rfl
  rwa [String.append_empty] at h

theorem readAs_openedMore {first a : Expr} (hk : k < maxNesting) (hnames : isPath names = true)
    (hopen : first.opening? = some a) (hclash : first.clashes = false)
    (hfirst : FittingFirst k first) (hes : FittingArgs k es) {text : String}
    (htext : ∀ cs, Scan.Breaks cs →
      Scan.kinds (text.toList ++ cs) = first.tokens.map .ok ++ Scan.kinds cs) :
    ReadAs k (dotted names ++ " " ++ text ++ (", " ++ joined es))
      (callStatement default (.path default names) (first :: es)) := by
  refine readAs_opened hk hnames hopen hclash hfirst hes (.inr rfl) htext (fun cs _ => ?_)
    fun cs hcs => ?_
  · rw [String.toList_append]
    exact breaks_cons (by decide) (by decide) _
  · have hsplit : (", " ++ joined es).toList ++ cs = ',' :: ' ' :: ((joined es).toList ++ cs) := by
      simp
    rw [hsplit, Scan.kinds_sign (by decide), Scan.kinds_blank, kinds_joined hes.1 hcs]
    simp

/-- `v es` -/
theorem readAs_list (hk : k < maxNesting) (hnames : isPath names = true) (hes : FittingArgs k es)
    (hhead : ∀ first ∈ es.head?, first.source.toList.head? ≠ some '(') :
    ReadAs k (dotted names ++ " " ++ joined es)
      (callStatement default (.path default names) es) := by
  have hopen : ∀ first ∈ es.head?, first.opening? = none := by
    intro first hfirst
    cases hopen : first.opening? with
    | none => rfl
    | some a => exact absurd (Expr.head_of_opening hopen) (hhead first hfirst)
  refine readAs_of_readTo ?_ hk (fun j hj => readTo_call hnames (hes.mono hj) hopen) fun cs hcs => ?_
  · cases names with
    | nil => cases hnames
    | cons name members => simp [pathTokens]
  · have hsplit : (dotted names ++ " " ++ joined es).toList ++ cs
        = (dotted names).toList ++ ' ' :: ((joined es).toList ++ cs) := by simp
    rw [hsplit, kinds_dotted hnames (breaks_blank _), Scan.kinds_blank, kinds_joined hes.1 hcs]
    simp

/-! ### parentheses and an operator -/

theorem kinds_paren (he : e.fits k = true) {cs : List Char} :
    Scan.kinds (("(" ++ e.source ++ ")").toList ++ cs)
      = (Expr.paren default e).tokens.map .ok ++ Scan.kinds cs := by
  have hsplit : ("(" ++ e.source ++ ")").toList ++ cs
      = '(' :: (e.source.toList ++ ')' :: cs) := by simp
  rw [hsplit, Scan.kinds_sign (by decide),
    Expr.kinds_source e (spelled_of_fits he) (breaks_cons (by decide) (by decide) _),
    Scan.kinds_sign (by decide)]
  simp [Expr.tokens]

theorem kinds_graft (op : BinaryOp) (he : e.fits k = true) (he' : e'.fits k = true)
    {cs : List Char} (hcs : Scan.Breaks cs) :
    Scan.kinds (("(" ++ e.source ++ ") " ++ op.symbol ++ " " ++ e'.source).toList ++ cs)
      = (Expr.graft op (.paren default e) e').tokens.map .ok ++ Scan.kinds cs := by
  have hsplit : ("(" ++ e.source ++ ") " ++ op.symbol ++ " " ++ e'.source).toList ++ cs
      = ("(" ++ e.source ++ ")").toList
        ++ ' ' :: (op.symbol.toList ++ ' ' :: (e'.source.toList ++ cs)) := by simp
  rw [hsplit, kinds_paren he, Scan.kinds_blank, kinds_symbol,
    Expr.kinds_source e' (spelled_of_fits he') hcs, Expr.tokens_graft]
  simp

/-- parentheses with an operator other than `=` and an operand behind them, as an expression and as
the first argument of a call -/
theorem readAs_operation (hk : k < maxNesting) (hnames : isPath names = true)
    (he : e.fits k = true) (he' : e'.fits k = true) (hes : FittingArgs k es) (op : BinaryOp)
    (name : String) (hop : op ≠ .eq) :
    ∃ a, Expr.ofText name ("(" ++ e.source ++ ") " ++ op.symbol ++ " " ++ e'.source) = .ok a
      ∧ ReadAs k (dotted names ++ " " ++ ("(" ++ e.source ++ ") " ++ op.symbol ++ " " ++ e'.source))
        (callStatement default (.path default names) [a])
      ∧ ReadAs k (dotted names ++ " " ++ ("(" ++ e.source ++ ") " ++ op.symbol ++ " " ++ e'.source)
          ++ (", " ++ joined es))
        (callStatement default (.path default names) (a :: es)) := by
  have hfits := he
  have hfits' := he'
  simp only [Expr.fits, Bool.and_eq_true, decide_eq_true_eq] at hfits hfits'
  obtain ⟨⟨hs, hc⟩, hn⟩ := hfits
  obtain ⟨⟨hs', hc'⟩, hn'⟩ := hfits'
  have hspelled : (Expr.graft op (.paren default e) e').spelled = true := by
    rw [Expr.spelled_graft, Expr.spelled, hs, hs']
    rfl
  have hparen : (Expr.paren default e).canonical = true := hc
  have hcanonical : (Expr.graft op (.paren default e) e').canonical = true :=
    Expr.canonical_graft hparen (Nat.le_of_lt (op_level_lt op)) rfl hc'
  have hnesting : (Expr.graft op (.paren default e) e').nesting < maxNesting := by
    rw [Expr.nesting_graft, Expr.nesting]
    omega
  have hfirst : FittingFirst k (Expr.graft op (.paren default e) e') := by
    refine ⟨hspelled, hcanonical, ?_⟩
    rw [Expr.firstNesting_graft, Expr.firstNesting]
    exact Nat.max_lt.mpr ⟨hn, hn'⟩
  have hopen : (Expr.graft op (.paren default e) e').opening? = some e := Expr.opening?_graft e'
  have hclash := Expr.clashes_graft_paren hop default e e'
  have htext : ∀ cs, Scan.Breaks cs →
      Scan.kinds (("(" ++ e.source ++ ") " ++ op.symbol ++ " " ++ e'.source).toList ++ cs)
        = (Expr.graft op (.paren default e) e').tokens.map .ok ++ Scan.kinds cs :=
    fun cs hcs => kinds_graft op he he' hcs
  have halone := htext [] trivial
  rw [List.append_nil, Scan.kinds_nil, List.append_nil] at halone
  have hkinds := (kinds_ofText name
    ("(" ++ e.source ++ ") " ++ op.symbol ++ " " ++ e'.source)).trans halone
  obtain ⟨a, ha, hbare⟩ := Expr.ofText_of_kinds hspelled hcanonical hnesting hkinds
  have hsame : ∀ as, (callStatement default (.path default names)
      (Expr.graft op (.paren default e) e' :: as)).bare
        = (callStatement default (.path default names) (a :: as)).bare :=
    fun as => bare_callStatement (by rw [Expr.bares, Expr.bares, hbare])
  refine ⟨a, ha, ?_, ?_⟩
  · exact (readAs_openedOne hk hnames hopen hclash hfirst htext).congr (hsame [])
  · exact (readAs_openedMore hk hnames hopen hclash hfirst hes htext).congr (hsame es)

/-! ### several arguments in parentheses -/

theorem refused_text (hnames : isPath names = true) (hes : FittingArgs k es)
    (hlen : 2 ≤ es.length) (name : String) (p : Position) {rest : List Char} (blk : Parser Block)
    (hrest : Scan.EndsStatement rest ∨ Scan.front rest = some (.symbol ',')) :
    (∃ kind, (ofCode name p ((dotted names ++ "(" ++ joined es ++ ")").toList ++ rest)).front
        = some kind) ∧
      someStatements (nested k) blk
        (ofCode name p ((dotted names ++ "(" ++ joined es ++ ")").toList ++ rest))
      = .error ⟨(p.after (dotted names).toList).locate name, .parenthesizedSubCall⟩ := by
  have hsplit : (dotted names ++ "(" ++ joined es ++ ")").toList ++ rest
      = (dotted names).toList ++ '(' :: ((joined es).toList ++ ')' :: rest) := by simp
  have hbreaks : Scan.Breaks ('(' :: ((joined es).toList ++ ')' :: rest)) :=
    breaks_cons (by decide) (by decide) _
  obtain ⟨ps, hps, hpath⟩ := ofCode_dotted name p hnames hbreaks
  have hkinds : Scan.kinds ((joined es).toList ++ ')' :: rest)
      = (Expr.argTokens es ++ [TokenKind.symbol ')']).map .ok ++ Scan.kinds rest := by
    rw [kinds_joined hes.1 (breaks_cons (by decide) (by decide) _), Scan.kinds_sign (by decide)]
    simp
  obtain ⟨ts, s, hts, hs, hstream⟩ := eq_ahead_append
    ((kinds_ofCode name ((p.after (dotted names).toList).after ['(']) _).trans hkinds)
  obtain ⟨kind, hf, hkind⟩ : ∃ kind, s.front = some kind
      ∧ (kind.endsStatement = true ∨ kind = .symbol ',') := by
    rw [Scan.front_of_kinds hs]
    rcases hrest with ⟨kind, hf, hend⟩ | hcomma
    · exact ⟨kind, hf, .inl hend⟩
    · exact ⟨_, hcomma, .inr rfl⟩
  have hopening : (⟨.symbol '(', (p.after (dotted names).toList).locate name⟩ : Token).kind
      = .symbol '(' := rfl
  have hread := refused_list hnames hes hlen blk hps hopening hts hf hkind
  have hwhole : ofCode name p ((dotted names ++ "(" ++ joined es ++ ")").toList ++ rest)
      = ahead (ps ++ ⟨.symbol '(', (p.after (dotted names).toList).locate name⟩ :: ts) s := by
    rw [hsplit, hpath, ofCode_sign (by decide), hstream, ahead_append]
    rfl
  rw [hwhole]
  exact ⟨front_ahead_of_front _ ⟨kind, hf⟩, hread⟩

/-! ### all of them -/

/-- **What a statement is that starts with a path.** -/
theorem path_readings (hk : k < maxNesting) (hnames : isPath names = true)
    (he : e.fits k = true) (he' : e'.fits k = true) (hes : ∀ e ∈ es, e.fits k = true) :
    PathReadings k names e e' es := by
  have hlist := fittingArgs_of_fits hes
  -- the texts are put together from the left, while an argument is one text
  have hfirst : FittingFirst k (.paren default e) := fittingFirst_paren default he
  have hparen : dotted names ++ " (" ++ e.source ++ ")"
      = dotted names ++ " " ++ ("(" ++ e.source ++ ")") := String.toList_inj.mp (by simp)
  have hparenMore : dotted names ++ " (" ++ e.source ++ "), " ++ joined es
      = dotted names ++ " " ++ ("(" ++ e.source ++ ")") ++ (", " ++ joined es) :=
    String.toList_inj.mp (by simp)
  have hoperation : ∀ op : BinaryOp,
      dotted names ++ " (" ++ e.source ++ ") " ++ op.symbol ++ " " ++ e'.source
        = dotted names ++ " " ++ ("(" ++ e.source ++ ") " ++ op.symbol ++ " " ++ e'.source) :=
    fun op => String.toList_inj.mp (by simp)
  have hoperationMore : ∀ op : BinaryOp,
      dotted names ++ " (" ++ e.source ++ ") " ++ op.symbol ++ " " ++ e'.source ++ ", " ++ joined es
        = dotted names ++ " " ++ ("(" ++ e.source ++ ") " ++ op.symbol ++ " " ++ e'.source)
          ++ (", " ++ joined es) :=
    fun op => String.toList_inj.mp (by simp)
  refine {
    assign := readAs_assign hk hnames he
    bare := readAs_bare hk hnames
    emptyList := readAs_emptyList hk hnames
    assignList := readAs_assignList hk hnames he hlist
    paren := ?_
    parenMore := ?_
    operation := fun op name hop => ?_
    list := readAs_list hk hnames hlist
    refused := fun hlen name p rest blk hrest =>
      (refused_text hnames hlist hlen name p blk hrest).2
    refusedAlone := fun hlen name rest hrest => ?_ }
  · rw [hparen]
    exact readAs_openedOne hk hnames rfl rfl hfirst fun _ _ => kinds_paren he
  · rw [hparenMore]
    exact readAs_openedMore hk hnames rfl rfl hfirst hlist fun _ _ => kinds_paren he
  · rw [hoperationMore, hoperation]
    exact readAs_operation hk hnames he he' hlist op name hop
  · have hlist' : FittingArgs (maxNesting - 1) es := hlist.mono (by omega)
    obtain ⟨hfront, hread⟩ := refused_text hnames hlist' hlen name .start
      (block (maxNesting - 1)) hrest
    have hblock : Block.parser (ofCode name .start
        (dotted names ++ "(" ++ joined es ++ ")" ++ rest).toList)
          = .error ⟨(Position.start.after (dotted names).toList).locate name,
              .parenthesizedSubCall⟩ := by
      rw [String.toList_append]
      exact bind_of_error (block_of_error hread hfront)
    show (Block.parser (ofCode name .start
      (dotted names ++ "(" ++ joined es ++ ")" ++ rest).toList)).map Prod.fst = _
    rw [hblock]
    rfl

end

/-- `o.f`, with `-x`, `1 * 2 = y` and the arguments `"a"` and `g(1)` -/
theorem path_readings_method :
    PathReadings 63 ["o", "f"]
      (.unary default .neg (.path default ["x"]))
      (.binary default .eq (.binary default .mul (.literal default (.integer 1))
        (.literal default (.integer 2))) (.path default ["y"]))
      [.literal default (.string "a"),
        .call default (.path default ["g"]) [.literal default (.integer 1)]] :=
  path_readings (by decide) (by decide) (by decide) (by decide) (by decide)

end PageScript
