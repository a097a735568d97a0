import PageScript.Proofs.Program.Template
import PageScript.Proofs.RoundTrip

/-!
# Reading templates

Scanning changes from text to code and back at every mark.  What a template has to report is a chunk
for every text, empty or not, and between two of them an `=` and the tokens of the expression
(`Template.kinds_source`).  A round of reading takes a chunk together with the expression behind it,
so the rounds follow the inserts.

Main statement: `Template.exists_ofText`.
-/

namespace PageScript

open TokenStream PageScript.Parser

namespace Template

/-! ## tokens -/

/-- what is in code behind the text in front of some inserts, the marks that open code left out -/
def inCode : List (Constant × String) → List Char
  | [] => []
  | p :: ps => '=' :: ' ' :: (p.1.expr.source.toList ++ ' ' :: '%' :: '>'
    :: (p.2.toList ++ (String.join (ps.map insertSource)).toList))

theorem toList_inserts_cons (p : Constant × String) (ps : List (Constant × String)) :
    (String.join ((p :: ps).map insertSource)).toList = '<' :: '%' :: inCode (p :: ps) := by
  simp [insertSource, inCode]

/-- what inserts report: an `=`, the expression, and a chunk for the text behind it -/
def tokens (ps : List (Constant × String)) : List TokenKind :=
  ps.flatMap fun p => .symbol '=' :: (p.1.expr.tokens ++ [.chunk p.2])

/-- a chunk runs to the end of the input if nothing in it opens code -/
theorem splitChunk_of_opensCode {cs : List Char} (h : opensCode cs = false) :
    Scan.splitChunk cs = (cs, [], []) := by
  fun_induction opensCode cs with
  | case1 => rfl
  | case2 => cases h
  | case3 c cs hne ih => rw [Scan.splitChunk.eq_3 _ _ hne, ih h]

/-- the chunk in front of some inserts is the text, and behind it comes their code -/
theorem chunk_text {text : String} (h : opensCode text.toList = false)
    (ps : List (Constant × String)) :
    (Scan.chunk (text.toList ++ (String.join (ps.map insertSource)).toList)).result
        = .ok (.chunk text) ∧
      (Scan.chunk (text.toList ++ (String.join (ps.map insertSource)).toList)).rest = inCode ps := by
  cases ps with
  | nil =>
    have hsplit := splitChunk_of_opensCode h
    simp [Scan.chunk, inCode, hsplit]
  | cons p ps =>
    have hsplit := Scan.splitChunk_text h (inCode (p :: ps))
    rw [toList_inserts_cons]
    simp [Scan.chunk, hsplit]

theorem kinds_leave {text : String} (h : opensCode text.toList = false)
    (ps : List (Constant × String)) :
    Scan.kinds ('%' :: '>' :: (text.toList ++ (String.join (ps.map insertSource)).toList))
      = .ok (.chunk text) :: Scan.kinds (inCode ps) := by
  obtain ⟨hresult, hrest⟩ := chunk_text h ps
  exact Scan.kinds_of_code hresult (by simp) hrest

theorem kinds_inCode {ps : List (Constant × String)}
    (htexts : ∀ p ∈ ps, opensCode p.2.toList = false)
    (hspelled : ∀ p ∈ ps, p.1.expr.spelled = true) :
    Scan.kinds (inCode ps) = (tokens ps).map .ok := by
  induction ps with
  | nil => exact Scan.kinds_nil
  | cons p ps ih =>
    obtain ⟨htext, htexts⟩ := List.forall_mem_cons.mp htexts
    obtain ⟨hexpr, hspelled⟩ := List.forall_mem_cons.mp hspelled
    rw [inCode, Scan.kinds_sign (by decide), Scan.kinds_blank,
      Expr.kinds_source _ hexpr (breaks_blank _), Scan.kinds_blank, kinds_leave htext,
      ih htexts hspelled]
    simp [tokens]

/-- what a template reports -/
theorem kinds_source {t : Template} (h : t.Writable) (name : String) :
    (TokenStream.ofText name .template t.source).kinds
      = (.chunk t.head :: tokens t.inserts).map .ok := by
  have hlist : t.source.toList
      = t.head.toList ++ (String.join (t.inserts.map insertSource)).toList := by
    rw [source, String.toList_append]
  obtain ⟨hresult, hrest⟩ := chunk_text h.head t.inserts
  show (ofTemplate name .start t.source.toList).kinds = _
  rw [ofTemplate, kinds_report, reportKind_located, kinds_ofCode, hlist, hresult, hrest,
    kinds_inCode h.texts h.spelled]
  rfl

/-! ## rounds -/

variable {inner : Nested Parser} {blk : Parser Block} {s : TokenStream}

/-- what is written for the text of a chunk -/
def textStatements (loc : Location) (text : String) : List Stmt :=
  if text.isEmpty then [] else [writeStatement loc (.literal loc (.string text))]

theorem bares_textStatements (loc : Location) (text : String) :
    Stmt.bares (textStatements loc text) = (textConstants text).map writing := by
  unfold textStatements textConstants
  cases text.isEmpty with
  | true => rfl
  | false => rfl

theorem someStatements_lastChunk {t : Token} {text : String} (ht : t.kind = .chunk text)
    (finish : Location) :
    someStatements inner blk (ahead [t] ⟨[], finish⟩)
      = .ok (some (textStatements t.location text), ⟨[], finish⟩) := by
  have hchunk : chunkStatements inner t.location text (ahead [t] ⟨[], finish⟩)
      = .ok (textStatements t.location text, ⟨[], finish⟩) := by
    unfold chunkStatements
    exact (bind_of_ok (next_report t ⟨[], finish⟩)).trans rfl
  unfold someStatements
  rw [ahead_cons, lift_bind_of_ok (peek_report t _)]
  simp only [ht]
  exact (bind_of_ok hchunk).trans rfl

theorem someStatements_insert (blk : Parser Block) {k : Nat} {t u v : Token} {text text' : String}
    {e : Expr}
    (ht : t.kind = .chunk text) (hu : u.kind = .symbol '=') (hv : v.kind = .chunk text')
    (he : e.fits k = true) {ts : List Token} (hts : ts.map Token.kind = e.tokens)
    (s : TokenStream) :
    ∃ e', e'.bare = e.bare ∧
      someStatements (nested k) blk (ahead (t :: u :: (ts ++ [v])) s)
        = .ok (some (textStatements t.location text ++ [writeStatement u.location e']),
            s.report (.ok v)) := by
  have hstops : (s.report (.ok v)).Stops precedence := ⟨v.kind, rfl, by rw [hv]; rfl⟩
  obtain ⟨e', he', hread⟩ := reads_of_fits he hts hstops
  refine ⟨e', he', ?_⟩
  have hend : endOfStatement (s.report (.ok v)) = .ok ((), s.report (.ok v)) := by
    unfold endOfStatement
    rw [bind_of_ok (peek_report v s), isSymbol_eq_false hv (by simp),
      show v.endsStatement = true by rw [Token.endsStatement, hv]; rfl]
    rfl
  have heq : u.isSymbol '=' = true := isSymbol_iff.mpr hu
  have hchunk : chunkStatements (nested k) t.location text (ahead (t :: u :: (ts ++ [v])) s)
      = .ok (textStatements t.location text ++ [writeStatement u.location e'],
          s.report (.ok v)) := by
    unfold chunkStatements
    rw [ahead_cons, ahead_cons, ahead_append, lift_bind_of_ok (next_report t _),
      lift_bind_of_ok (peek_report u _), heq, if_pos rfl]
    refine (bind_of_ok (next_report u _)).trans ((bind_of_ok hread).trans ?_)
    exact (bind_of_ok hend).trans rfl
  rw [ahead_cons] at hchunk ⊢
  unfold someStatements
  rw [lift_bind_of_ok (peek_report t _)]
  simp only [ht]
  exact (bind_of_ok hchunk).trans rfl

/-- the rounds of a chunk and the inserts behind it, up to the end of the input -/
theorem rounds_inserts {k : Nat} (blk : Parser Block) {ps : List (Constant × String)}
    (hps : ∀ p ∈ ps, p.1.expr.fits k = true) {text : String} {ts : List Token}
    (hts : ts.map Token.kind = .chunk text :: tokens ps) (finish : Location) :
    ∃ lists : List (List Stmt), Stmt.bares lists.flatten = (constants text ps).map writing ∧
      Rounds (someStatements (nested k) blk) (ahead ts ⟨[], finish⟩) lists ⟨[], finish⟩ := by
  induction ps generalizing text ts with
  | nil =>
    obtain ⟨t, rfl, ht⟩ := List.map_eq_singleton_iff.mp hts
    refine ⟨[textStatements t.location text], ?_, ?_⟩
    · simp [bares_textStatements, constants]
    · exact .single (someStatements_lastChunk ht finish) (Nat.lt_succ_self _)
  | cons p ps ih =>
    obtain ⟨hp, hps⟩ := List.forall_mem_cons.mp hps
    obtain ⟨t, us, rfl, ht, hus⟩ := List.map_eq_cons_iff.mp hts
    have hus : us.map Token.kind
        = .symbol '=' :: (p.1.expr.tokens ++ (.chunk p.2 :: tokens ps)) := by
      rw [hus]
      simp [tokens]
    obtain ⟨u, us, rfl, hu, hus⟩ := List.map_eq_cons_iff.mp hus
    obtain ⟨es, vs, rfl, hes, hvs⟩ := List.map_eq_append_iff.mp hus
    obtain ⟨v, ws, rfl, hv, -⟩ := List.map_eq_cons_iff.mp hvs
    obtain ⟨lists, hlists, hrounds⟩ := ih hps hvs
    obtain ⟨e', he', hround⟩ := someStatements_insert blk ht hu hv hp hes
      (ahead ws ⟨[], finish⟩)
    have hahead : ahead (t :: u :: (es ++ v :: ws)) ⟨[], finish⟩
        = ahead (t :: u :: (es ++ [v])) (ahead ws ⟨[], finish⟩) := by
      simp only [ahead_cons, ahead_append, ahead_nil]
    refine ⟨(textStatements t.location text ++ [writeStatement u.location e']) :: lists, ?_, ?_⟩
    · rw [List.flatten_cons, Stmt.bares_append, Stmt.bares_append, hlists, bares_textStatements,
        constants_cons]
      have hwriting := bare_writeStatement (he'.trans p.1.bare_expr) u.location
      simp [Stmt.bares, hwriting]
    · rw [hahead]
      refine .round hround ?_ hrounds
      simp only [size_report, size_ahead, List.length_cons, List.length_append]
      omega

/-- **A template is read as the statements that write its pieces.** -/
theorem exists_ofText {t : Template} (h : t.Writable) (name : String) :
    ∃ b, Block.ofText name .template t.source = .ok b ∧ b.bare = ⟨default, t.statements⟩ := by
  obtain ⟨ts, finish, hts, hstream⟩ := eq_ahead_of_kinds (kinds_source h name)
  obtain ⟨lists, hlists, hrounds⟩ := rounds_inserts (block 63) (fun p hp => h.fits hp) hts finish
  obtain ⟨loc, hread⟩ := block_of_rounds hrounds (endsBlock_nil finish)
    (front_ahead_of_front ts (endsBlock_nil finish).front)
  refine ⟨⟨loc, lists.flatten⟩, run_eq_ok.mpr ⟨⟨[], finish⟩, ?_⟩, ?_⟩
  · rw [hstream]
    exact (bind_of_ok hread).trans rfl
  · rw [Block.bare, hlists]
    rfl

end Template

end PageScript
