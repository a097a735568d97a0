import PageScript.Proofs.Token.Kinds

/-!
# The tokens of a tree

`tokens` lists the tokens of the source text of a tree, in order.  The end of a line is the symbol
`:`.  Scanning the source text gives exactly this list:

* `Expr.kinds_source`    for an expression, in front of any text that breaks behind it;
* `Block.kinds_source`   for a whole program.
-/

namespace PageScript

open Scan

/-! ## expressions -/

/-- an operator is a word, or one or two signs -/
def BinaryOp.tokens (op : BinaryOp) : List TokenKind :=
  if isWord op.symbol then [.word op.symbol] else op.symbol.toList.map .symbol

def pathTokens : List String → List TokenKind
  | [] => []
  | name :: members => .word name :: members.flatMap fun m => [.symbol '.', .word m]

def Literal.token : Literal → TokenKind
  | .integer n => .integer n
  | .string s => .string s
  | .boolean true => .word "true"
  | .boolean false => .word "false"

mutual
/-- the tokens of an expression in order -/
def Expr.tokens : Expr → List TokenKind
  | .literal _ value => [value.token]
  | .path _ names => pathTokens names
  | .binary _ op left right => left.tokens ++ (op.tokens ++ right.tokens)
  | .unary _ .neg operand => .symbol '-' :: operand.tokens
  | .unary _ .not operand => .word "not" :: operand.tokens
  | .call _ callee args => callee.tokens ++ (.symbol '(' :: (Expr.argTokens args ++ [.symbol ')']))
  | .new _ className => [.word "new", .word className]
  | .paren _ inner => .symbol '(' :: (inner.tokens ++ [.symbol ')'])

def Expr.argTokens : List Expr → List TokenKind
  | [] => []
  | e :: es => e.tokens ++ Expr.moreTokens es

def Expr.moreTokens : List Expr → List TokenKind
  | [] => []
  | e :: es => .symbol ',' :: (e.tokens ++ Expr.moreTokens es)
end

/-! ## scanning expressions -/

theorem breaks_cons {c : Char} (hc : isNameChar c = false) (hq : c ≠ '"') (cs : List Char) :
    Breaks (c :: cs) := ⟨hc, hq⟩

theorem breaks_blank (cs : List Char) : Breaks (' ' :: cs) := breaks_cons (by decide) (by decide) cs

theorem kinds_symbol (op : BinaryOp) (cs : List Char) :
    kinds (op.symbol.toList ++ ' ' :: cs) = op.tokens.map .ok ++ kinds cs := by
  cases hw : isWord op.symbol with
  | true =>
    rw [BinaryOp.tokens, if_pos hw, kinds_word hw (breaks_blank cs), kinds_blank]
    rfl
  | false =>
    have hall : op.symbol.toList.all isSign = true := by
      revert hw
      cases op <;> decide
    have hs := List.all_eq_true.mp hall
    rw [BinaryOp.tokens, if_neg (by rw [hw]; decide)]
    generalize op.symbol.toList = signs at hs ⊢
    induction signs with
    | nil => exact kinds_blank cs
    | cons c signs ih =>
      rw [List.cons_append, kinds_sign (hs c List.mem_cons_self),
        ih fun d hd => hs d (List.mem_cons_of_mem c hd)]
      rfl

/-- texts joined by a separator: the first text, and the separator in front of every other -/
theorem toList_intercalate_cons (sep a : String) (as : List String) :
    (sep.intercalate (a :: as)).toList
      = a.toList ++ as.flatMap fun b => sep.toList ++ b.toList := by
  rw [String.toList_intercalate]
  induction as generalizing a with
  | nil => simp [List.intercalate]
  | cons b bs ih =>
    have h := ih b
    simp only [List.map_cons, List.flatMap_cons] at h ⊢
    rw [List.intercalate_cons_cons, h]
    simp

theorem kinds_dotted {names : List String} (h : isPath names = true) {cs : List Char}
    (hcs : Breaks cs) :
    kinds ((dotted names).toList ++ cs) = (pathTokens names).map .ok ++ kinds cs := by
  cases names with
  | nil => cases h
  | cons name members =>
    simp only [isPath, isName, Bool.and_eq_true] at h
    obtain ⟨⟨hname, -⟩, hmembers⟩ := h
    have htail : Breaks ((members.flatMap fun m => ".".toList ++ m.toList) ++ cs) ∧
        kinds ((members.flatMap fun m => ".".toList ++ m.toList) ++ cs)
          = (members.flatMap fun m => [TokenKind.symbol '.', .word m]).map .ok ++ kinds cs := by
      induction members with
      | nil => exact ⟨hcs, rfl⟩
      | cons m ms ih =>
        simp only [List.all_cons, Bool.and_eq_true] at hmembers
        obtain ⟨hb, hk⟩ := ih hmembers.2
        refine ⟨breaks_cons (by decide) (by decide) _, ?_⟩
        rw [List.flatMap_cons, List.append_assoc, List.append_assoc]
        show kinds ('.' :: (m.toList ++ _)) = _
        rw [kinds_sign (by decide), kinds_word hmembers.1 hb, hk]
        rfl
    rw [dotted, toList_intercalate_cons, List.append_assoc, kinds_word hname htail.1, htail.2]
    rfl

theorem kinds_literal {v : Literal} (h : v.spelled = true) {cs : List Char} (hcs : Breaks cs) :
    kinds (v.source.toList ++ cs) = .ok v.token :: kinds cs := by
  cases v with
  | integer n => exact kinds_integer (of_decide_eq_true h) hcs
  | string s =>
    apply kinds_string _ hcs
    simpa [Literal.spelled] using h
  | boolean b =>
    cases b with
    | true => exact kinds_word (by decide) hcs
    | false => exact kinds_word (by decide) hcs

/-- the source texts of arguments behind the first -/
def moreSource (es : List Expr) : List Char :=
  (Expr.sources es).flatMap fun b => ", ".toList ++ b.toList

theorem breaks_moreSource (es : List Expr) {cs : List Char} (hcs : Breaks cs) :
    Breaks (moreSource es ++ cs) := by
  cases es with
  | nil => exact hcs
  | cons e es => exact breaks_cons (by decide) (by decide) _

mutual
theorem Expr.kinds_source : ∀ (e : Expr) (_ : e.spelled = true) {cs : List Char} (_ : Breaks cs),
    kinds (e.source.toList ++ cs) = e.tokens.map .ok ++ kinds cs
  | .literal _ v, h, cs, hcs => kinds_literal h hcs
  | .path _ names, h, cs, hcs => kinds_dotted h hcs
  | .binary _ op l r, h, cs, hcs => by
    simp only [Expr.spelled, Bool.and_eq_true] at h
    have e : (Expr.source (.binary default op l r)).toList ++ cs
        = l.source.toList ++ ' ' :: (op.symbol.toList ++ ' ' :: (r.source.toList ++ cs)) := by
      simp [Expr.source]
    show kinds ((Expr.source (.binary default op l r)).toList ++ cs) = _
    rw [e, Expr.kinds_source l h.1 (breaks_blank _), kinds_blank, kinds_symbol,
      Expr.kinds_source r h.2 hcs]
    simp [Expr.tokens]
  | .unary _ .neg a, h, cs, hcs => by
    have e : (Expr.source (.unary default .neg a)).toList ++ cs = '-' :: (a.source.toList ++ cs) := by
      simp [Expr.source]
    show kinds ((Expr.source (.unary default .neg a)).toList ++ cs) = _
    rw [e, kinds_sign (by decide), Expr.kinds_source a h hcs]
    rfl
  | .unary _ .not a, h, cs, hcs => by
    have e : (Expr.source (.unary default .not a)).toList ++ cs
        = "not".toList ++ ' ' :: (a.source.toList ++ cs) := by
      simp [Expr.source]
    show kinds ((Expr.source (.unary default .not a)).toList ++ cs) = _
    rw [e, kinds_word (by decide) (breaks_blank _), kinds_blank, Expr.kinds_source a h hcs]
    rfl
  | .call _ f as, h, cs, hcs => by
    simp only [Expr.spelled, Bool.and_eq_true] at h
    have e : (Expr.source (.call default f as)).toList ++ cs
        = f.source.toList
          ++ '(' :: ((", ".intercalate (Expr.sources as)).toList ++ ')' :: cs) := by
      simp [Expr.source]
    show kinds ((Expr.source (.call default f as)).toList ++ cs) = _
    rw [e, Expr.kinds_source f h.1 (breaks_cons (by decide) (by decide) _),
      kinds_sign (by decide),
      Expr.kinds_args as h.2 (breaks_cons (by decide) (by decide) _), kinds_sign (by decide)]
    simp [Expr.tokens]
  | .new _ c, h, cs, hcs => by
    simp only [Expr.spelled, isName, Bool.and_eq_true] at h
    have e : (Expr.source (.new default c)).toList ++ cs
        = "new".toList ++ ' ' :: (c.toList ++ cs) := by
      simp [Expr.source]
    show kinds ((Expr.source (.new default c)).toList ++ cs) = _
    rw [e, kinds_word (by decide) (breaks_blank _), kinds_blank, kinds_word h.1 hcs]
    rfl
  | .paren _ a, h, cs, hcs => by
    have e : (Expr.source (.paren default a)).toList ++ cs
        = '(' :: (a.source.toList ++ ')' :: cs) := by
      simp [Expr.source]
    show kinds ((Expr.source (.paren default a)).toList ++ cs) = _
    rw [e, kinds_sign (by decide),
      Expr.kinds_source a h (breaks_cons (by decide) (by decide) _), kinds_sign (by decide)]
    simp [Expr.tokens]

theorem Expr.kinds_args : ∀ (es : List Expr) (_ : Expr.allSpelled es = true) {cs : List Char}
    (_ : Breaks cs),
    kinds ((", ".intercalate (Expr.sources es)).toList ++ cs)
      = (Expr.argTokens es).map .ok ++ kinds cs
  | [], _, cs, _ => rfl
  | e :: es, h, cs, hcs => by
    simp only [Expr.allSpelled, Bool.and_eq_true] at h
    rw [Expr.sources, toList_intercalate_cons, List.append_assoc]
    show kinds (e.source.toList ++ (moreSource es ++ cs)) = _
    rw [ Expr.kinds_source e h.1 (breaks_moreSource es hcs),
      Expr.kinds_more es h.2 hcs]
    simp [Expr.argTokens]

theorem Expr.kinds_more : ∀ (es : List Expr) (_ : Expr.allSpelled es = true) {cs : List Char}
    (_ : Breaks cs),
    kinds (moreSource es ++ cs) = (Expr.moreTokens es).map .ok ++ kinds cs
  | [], _, cs, _ => rfl
  | e :: es, h, cs, hcs => by
    simp only [Expr.allSpelled, Bool.and_eq_true] at h
    have hm : moreSource (e :: es) ++ cs
        = ',' :: ' ' :: (e.source.toList ++ (moreSource es ++ cs)) := by
      simp [moreSource, Expr.sources]
    rw [hm, kinds_sign (by decide), kinds_blank,
      Expr.kinds_source e h.1 (breaks_moreSource es hcs), Expr.kinds_more es h.2 hcs]
    simp [Expr.moreTokens]
end

/-! ## statements -/

def Expr.lineTokens : Expr → List TokenKind
  | .call _ (.path _ names) args => pathTokens names ++ Expr.argTokens args
  | e => .word "call" :: e.tokens

def Expr.statementTokens (e : Expr) : List TokenKind :=
  match chunkText? e with
  | some text => [.chunk text]
  | none => e.lineTokens

def Param.tokens (p : Param) : List TokenKind :=
  match p.byRef with
  | some true => [.word "byref", .word p.name]
  | some false => [.word "byval", .word p.name]
  | none => [.word p.name]

def paramTokens : List Param → List TokenKind
  | [] => []
  | p :: ps => p.tokens ++ ps.flatMap fun p => .symbol ',' :: p.tokens

def headTokens (kind : FunctionKind) (name : String) (params : List Param) : List TokenKind :=
  .word kind.keyword :: .word name :: .symbol '(' :: (paramTokens params ++ [.symbol ')', .symbol ':'])

mutual
/-- the tokens of a statement in order, up to the end of its last line -/
def Stmt.tokens : Stmt → List TokenKind
  | .function decl => decl.tokens
  | .class decl => decl.tokens
  | .dim decl => [.word "dim", .word decl.name, .symbol ':']
  | .assign _ target value => target.tokens ++ (.symbol '=' :: (value.tokens ++ [.symbol ':']))
  | .cond _ condition thenBlock elseBlock =>
    .word "if" :: (condition.tokens ++ (.word "then" :: .symbol ':' :: (thenBlock.tokens
      ++ (elseBlock.elseTokens ++ [.word "end", .word "if", .symbol ':']))))
  | .expr _ e => e.statementTokens ++ [.symbol ':']
  | .optionExplicit _ => [.word "option", .word "explicit", .symbol ':']
  | .exit _ kind => [.word "exit", .word kind.keyword, .symbol ':']

def Stmt.allTokens : List Stmt → List TokenKind
  | [] => []
  | s :: ss => s.tokens ++ Stmt.allTokens ss

def Block.tokens : Block → List TokenKind
  | ⟨_, statements⟩ => Stmt.allTokens statements

def Block.elseTokens : Block → List TokenKind
  | ⟨_, []⟩ => []
  | ⟨_, [.cond _ condition thenBlock elseBlock]⟩ =>
    .word "elseif" :: (condition.tokens ++ (.word "then" :: .symbol ':' :: (thenBlock.tokens
      ++ elseBlock.elseTokens)))
  | ⟨_, s :: ss⟩ => .word "else" :: .symbol ':' :: (s.tokens ++ Stmt.allTokens ss)

def FunctionDecl.tokens : FunctionDecl → List TokenKind
  | ⟨_, kind, name, params, body⟩ =>
    headTokens kind name params
      ++ (body.tokens ++ [.word "end", .word kind.keyword, .symbol ':'])

def FunctionDecl.allTokens : List FunctionDecl → List TokenKind
  | [] => []
  | d :: ds => d.tokens ++ FunctionDecl.allTokens ds

def ClassDecl.tokens : ClassDecl → List TokenKind
  | ⟨_, name, fields, methods⟩ =>
    .word "class" :: .word name :: .symbol ':'
      :: ((fields.flatMap fun f => [.word "dim", .word f.name, .symbol ':'])
        ++ (FunctionDecl.allTokens methods ++ [.word "end", .word "class", .symbol ':']))
end

theorem Block.elseTokens_of_not_isCondition {l : Location} {s : Stmt} {ss : List Stmt}
    (h : Block.isCondition ⟨l, s :: ss⟩ = false) :
    Block.elseTokens ⟨l, s :: ss⟩
      = .word "else" :: .symbol ':' :: Block.tokens ⟨l, s :: ss⟩ := by
  rw [Block.elseTokens.eq_3 l s ss (Block.ne_condition h), Block.tokens, Stmt.allTokens]

/-! ## scanning statements -/

/-- an expression whose statement can be scanned: it is printed outside code, or it is spelled -/
def Expr.scans (e : Expr) : Bool := (chunkText? e).isSome || e.spelled

theorem breaks_newline (cs : List Char) : Breaks ('\n' :: cs) :=
  breaks_cons (by decide) (by decide) cs

/-- lines that are scanned as these tokens, whatever follows -/
def Scanned (text : String) (ks : List TokenKind) : Prop :=
  ∀ cs, kinds (text.toList ++ cs) = ks.map .ok ++ kinds cs

theorem scanned_empty : Scanned "" [] := fun _ => rfl

theorem Scanned.append {a b : String} {ks ls : List TokenKind} (ha : Scanned a ks)
    (hb : Scanned b ls) : Scanned (a ++ b) (ks ++ ls) := by
  intro cs
  rw [String.toList_append, List.append_assoc, ha, hb, List.map_append, List.append_assoc]

theorem scanned_line (d : Nat) {text : String} {ks : List TokenKind}
    (h : ∀ cs, kinds (text.toList ++ '\n' :: cs) = ks.map .ok ++ kinds ('\n' :: cs)) :
    Scanned (line d text) (ks ++ [.symbol ':']) := by
  intro cs
  have e : (line d text).toList ++ cs
      = List.replicate (4 * d) ' ' ++ (text.toList ++ '\n' :: cs) := by
    simp [line, indent]
  rw [e, kinds_blanks, h, kinds_newline]
  simp

/-- a word and a blank in front of a text -/
theorem kinds_word_blank {w : String} (hw : isWord w = true) (cs : List Char) :
    kinds (w.toList ++ ' ' :: cs) = .ok (.word w) :: kinds cs := by
  rw [kinds_word hw (breaks_blank cs), kinds_blank]

theorem opensCode_of_chunkText? {e : Expr} {text : String} (h : chunkText? e = some text) :
    opensCode text.toList = false := by
  unfold chunkText? at h
  split at h
  · split at h
    · next hc =>
      obtain rfl := Option.some.inj h
      simp only [needsChunk, Bool.and_eq_true, Bool.not_eq_true'] at hc
      exact hc.2.2
    · cases h
  · cases h

theorem kinds_chunkText {e : Expr} {text : String} (h : chunkText? e = some text)
    (cs : List Char) :
    kinds (("%>" ++ text ++ "<%").toList ++ cs) = e.statementTokens.map .ok ++ kinds cs := by
  have e1 : ("%>" ++ text ++ "<%").toList ++ cs
      = '%' :: '>' :: (text.toList ++ '<' :: '%' :: cs) := by
    simp
  rw [e1, kinds_chunk (opensCode_of_chunkText? h), Expr.statementTokens, h]
  rfl

theorem kinds_call {e : Expr} (he : e.spelled = true) {cs : List Char} (hcs : Breaks cs) :
    kinds (("call " ++ e.source).toList ++ cs) = (.word "call" :: e.tokens).map .ok ++ kinds cs := by
  have e1 : ("call " ++ e.source).toList ++ cs = "call".toList ++ ' ' :: (e.source.toList ++ cs) := by
    simp
  rw [e1, kinds_word_blank (by decide), Expr.kinds_source e he hcs]
  rfl

theorem kinds_statement {e : Expr} (he : e.spelled = true) {cs : List Char} (hcs : Breaks cs) :
    kinds (e.statement.toList ++ cs) = e.lineTokens.map .ok ++ kinds cs := by
  fun_cases Expr.statement e with
  | case1 l l' names =>
    simp only [Expr.spelled, Bool.and_eq_true] at he
    rw [kinds_dotted he.1 hcs, Expr.lineTokens, Expr.argTokens, List.append_nil]
  | case2 l l' names args _ =>
    simp only [Expr.spelled, Bool.and_eq_true] at he
    have e1 : (dotted names ++ " " ++ ", ".intercalate (Expr.sources args)).toList ++ cs
        = (dotted names).toList
          ++ ' ' :: ((", ".intercalate (Expr.sources args)).toList ++ cs) := by
      simp
    rw [e1, kinds_dotted he.1 (breaks_blank _), kinds_blank, Expr.kinds_args _ he.2 hcs]
    simp [Expr.lineTokens]
  | case3 e hne hne' =>
    rw [Expr.lineTokens.eq_2 e (fun l l' names args h => hne' l l' names args h)]
    exact kinds_call he hcs

theorem kinds_param {p : Param} (h : isName p.name = true) {cs : List Char} (hcs : Breaks cs) :
    kinds (p.source.toList ++ cs) = p.tokens.map .ok ++ kinds cs := by
  obtain ⟨l, name, byRef⟩ := p
  simp only [isName, Bool.and_eq_true] at h
  match byRef with
  | none => exact kinds_word h.1 hcs
  | some true =>
    have e : (Param.source ⟨l, name, some true⟩).toList ++ cs
        = "byref".toList ++ ' ' :: (name.toList ++ cs) := by
      simp [Param.source]
    rw [e, kinds_word_blank (by decide), kinds_word h.1 hcs]
    rfl
  | some false =>
    have e : (Param.source ⟨l, name, some false⟩).toList ++ cs
        = "byval".toList ++ ' ' :: (name.toList ++ cs) := by
      simp [Param.source]
    rw [e, kinds_word_blank (by decide), kinds_word h.1 hcs]
    rfl

theorem kinds_params {ps : List Param} (h : ps.all (fun p => isName p.name) = true)
    (cs : List Char) :
    kinds ((", ".intercalate (ps.map Param.source)).toList ++ ')' :: cs)
      = (paramTokens ps).map .ok ++ kinds (')' :: cs) := by
  cases ps with
  | nil => rfl
  | cons p ps =>
    simp only [List.all_cons, Bool.and_eq_true] at h
    have htail : Breaks (((ps.map Param.source).flatMap fun b => ", ".toList ++ b.toList)
          ++ ')' :: cs) ∧
        kinds (((ps.map Param.source).flatMap fun b => ", ".toList ++ b.toList) ++ ')' :: cs)
          = (ps.flatMap fun p => TokenKind.symbol ',' :: p.tokens).map .ok
            ++ kinds (')' :: cs) := by
      have hps := h.2
      clear h
      induction ps with
      | nil => exact ⟨breaks_cons (by decide) (by decide) _, rfl⟩
      | cons q ps ih =>
        simp only [List.all_cons, Bool.and_eq_true] at hps
        obtain ⟨hb, hk⟩ := ih hps.2
        refine ⟨breaks_cons (by decide) (by decide) _, ?_⟩
        rw [List.map_cons, List.flatMap_cons, List.append_assoc, List.append_assoc]
        show kinds (',' :: ' ' :: (q.source.toList ++ _)) = _
        rw [kinds_sign (by decide), kinds_blank, kinds_param hps.1 hb, hk]
        simp
    rw [List.map_cons, toList_intercalate_cons, List.append_assoc, kinds_param h.1 htail.1, htail.2]
    simp [paramTokens]

theorem isWord_keyword (kind : FunctionKind) : isWord kind.keyword = true := by
  cases kind <;> decide

theorem scanned_headLine (d : Nat) (kind : FunctionKind) {name : String}
    (hn : isName name = true) {ps : List Param} (h : ps.all (fun p => isName p.name) = true) :
    Scanned (line d (headLine kind name ps)) (headTokens kind name ps) := by
  simp only [isName, Bool.and_eq_true] at hn
  have hline : ∀ cs, kinds ((headLine kind name ps).toList ++ '\n' :: cs)
      = (.word kind.keyword :: .word name :: .symbol '('
          :: (paramTokens ps ++ [.symbol ')'])).map .ok ++ kinds ('\n' :: cs) := by
    intro cs
    have e : (headLine kind name ps).toList ++ '\n' :: cs
        = kind.keyword.toList ++ ' ' :: (name.toList
          ++ '(' :: ((", ".intercalate (ps.map Param.source)).toList ++ ')' :: '\n' :: cs)) := by
      simp [headLine]
    rw [e, kinds_word_blank (isWord_keyword kind), kinds_word hn.1 (breaks_cons (by decide) (by decide) _),
      kinds_sign (by decide), kinds_params h, kinds_sign (by decide)]
    simp
  simpa [headTokens] using scanned_line d hline

theorem scanned_words (d : Nat) {text v w : String}
    (ht : text.toList = v.toList ++ ' ' :: w.toList) (hv : isWord v = true)
    (hw : isWord w = true) : Scanned (line d text) [.word v, .word w, .symbol ':'] := by
  have hline : ∀ cs, kinds (text.toList ++ '\n' :: cs)
      = [TokenKind.word v, .word w].map .ok ++ kinds ('\n' :: cs) := by
    intro cs
    rw [ht, List.append_assoc, List.cons_append, kinds_word_blank hv,
      kinds_word hw (breaks_newline cs)]
    rfl
  exact scanned_line d hline

theorem scanned_dim (d : Nat) {decl : Dim} (h : isName decl.name = true) :
    Scanned (line d decl.source) [.word "dim", .word decl.name, .symbol ':'] := by
  simp only [isName, Bool.and_eq_true] at h
  exact scanned_words d (by simp [Dim.source]) (by decide) h.1

theorem scanned_fields (d : Nat) {fields : List Dim}
    (h : fields.all (fun f => isName f.name) = true) :
    Scanned (String.join (fields.map fun f => line d f.source))
      (fields.flatMap fun f => [.word "dim", .word f.name, .symbol ':']) := by
  induction fields with
  | nil => exact scanned_empty
  | cons f fields ih =>
    simp only [List.all_cons, Bool.and_eq_true] at h
    rw [List.map_cons, String.join_cons, List.flatMap_cons]
    exact (scanned_dim d h.1).append (ih h.2)

theorem scanned_branch (d : Nat) {text w : String} {c : Expr}
    (ht : text.toList = w.toList ++ ' ' :: (c.source.toList ++ ' ' :: "then".toList))
    (hw : isWord w = true) (hc : c.spelled = true) :
    Scanned (line d text) (.word w :: (c.tokens ++ [.word "then", .symbol ':'])) := by
  have hline : ∀ cs, kinds (text.toList ++ '\n' :: cs)
      = (.word w :: (c.tokens ++ [.word "then"])).map .ok ++ kinds ('\n' :: cs) := by
    intro cs
    rw [ht, List.append_assoc, List.cons_append, List.append_assoc, List.cons_append,
      kinds_word_blank hw, Expr.kinds_source c hc (breaks_blank _), kinds_blank,
      kinds_word (by decide) (breaks_newline cs)]
    simp
  simpa using scanned_line d hline

/-! ## scanning blocks -/

section

variable (d : Nat) (l : Location)

theorem scanned_assign {target value : Expr} (ht : target.spelled = true)
    (hv : value.spelled = true) :
    Scanned ((Stmt.assign l target value).sourceAt d) (Stmt.assign l target value).tokens := by
  have hline : ∀ cs, kinds ((target.source ++ " = " ++ value.source).toList ++ '\n' :: cs)
      = (target.tokens ++ (.symbol '=' :: value.tokens)).map .ok ++ kinds ('\n' :: cs) := by
    intro cs
    have e : (target.source ++ " = " ++ value.source).toList ++ '\n' :: cs
        = target.source.toList ++ ' ' :: '=' :: ' ' :: (value.source.toList ++ '\n' :: cs) := by
      simp
    rw [e, Expr.kinds_source target ht (breaks_blank _), kinds_blank,
      kinds_sign (by decide), kinds_blank, Expr.kinds_source value hv (breaks_newline cs)]
    simp
  have htokens : (Stmt.assign l target value).tokens
      = target.tokens ++ (.symbol '=' :: value.tokens) ++ [.symbol ':'] := by
    simp [Stmt.tokens]
  rw [htokens]
  exact scanned_line d hline

theorem scanned_expr {e : Expr} (he : e.scans = true) :
    Scanned ((Stmt.expr l e).sourceAt d) (Stmt.expr l e).tokens := by
  show Scanned (match chunkText? e with
    | some text => line d ("%>" ++ text ++ "<%")
    | none => line d e.statement) (e.statementTokens ++ [.symbol ':'])
  cases h : chunkText? e with
  | some text => exact scanned_line d fun cs => kinds_chunkText h _
  | none =>
    have he : e.spelled = true := by simpa [Expr.scans, h] using he
    rw [Expr.statementTokens, h]
    exact scanned_line d fun cs => kinds_statement he (breaks_newline cs)

theorem scanned_cond {c : Expr} {t e : Block} (hc : c.spelled = true)
    (ht : Scanned (t.sourceAt (d + 1)) t.tokens) (he : Scanned (e.elseAt d) e.elseTokens) :
    Scanned ((Stmt.cond l c t e).sourceAt d) (Stmt.cond l c t e).tokens := by
  have hif : Scanned (line d ("if " ++ c.source ++ " then"))
      (.word "if" :: (c.tokens ++ [.word "then", .symbol ':'])) :=
    scanned_branch d (by simp) (by decide) hc
  have hend : Scanned (line d "end if") [.word "end", .word "if", .symbol ':'] :=
    scanned_words d (by simp) (by decide) (by decide)
  have htokens : (Stmt.cond l c t e).tokens
      = .word "if" :: (c.tokens ++ [.word "then", .symbol ':']) ++ t.tokens ++ e.elseTokens
        ++ [.word "end", .word "if", .symbol ':'] := by
    simp [Stmt.tokens]
  rw [htokens]
  exact ((hif.append ht).append he).append hend

theorem scanned_elseIf {c : Expr} {t e : Block} (hc : c.spelled = true)
    (ht : Scanned (t.sourceAt (d + 1)) t.tokens) (he : Scanned (e.elseAt d) e.elseTokens)
    (l' : Location) :
    Scanned (Block.elseAt d ⟨l, [.cond l' c t e]⟩) (Block.elseTokens ⟨l, [.cond l' c t e]⟩) := by
  have hif : Scanned (line d ("elseif " ++ c.source ++ " then"))
      (.word "elseif" :: (c.tokens ++ [.word "then", .symbol ':'])) :=
    scanned_branch d (by simp) (by decide) hc
  have htokens : Block.elseTokens ⟨l, [.cond l' c t e]⟩
      = .word "elseif" :: (c.tokens ++ [.word "then", .symbol ':']) ++ t.tokens
        ++ e.elseTokens := by
    simp [Block.elseTokens]
  rw [htokens]
  exact (hif.append ht).append he

theorem scanned_elseBlock {s : Stmt} {ss : List Stmt} (h : Block.isCondition ⟨l, s :: ss⟩ = false)
    (hss : Scanned (Stmt.sourcesAt (d + 1) (s :: ss)) (Stmt.allTokens (s :: ss))) :
    Scanned (Block.elseAt d ⟨l, s :: ss⟩) (Block.elseTokens ⟨l, s :: ss⟩) := by
  have hline : ∀ cs, kinds ("else".toList ++ '\n' :: cs)
      = [TokenKind.word "else"].map .ok ++ kinds ('\n' :: cs) :=
    fun cs => kinds_word (by decide) (breaks_newline cs)
  have helse : Scanned (line d "else") [.word "else", .symbol ':'] := scanned_line d hline
  rw [Block.elseAt_of_not_isCondition d h, Block.elseTokens_of_not_isCondition h,
    String.append_assoc]
  exact helse.append hss

theorem scanned_function {kind : FunctionKind} {name : String} {ps : List Param} {body : Block}
    (hn : isName name = true) (hps : ps.all (fun p => isName p.name) = true)
    (hbody : Scanned (body.sourceAt (d + 1)) body.tokens) :
    Scanned (FunctionDecl.sourceAt d ⟨l, kind, name, ps, body⟩)
      (FunctionDecl.tokens ⟨l, kind, name, ps, body⟩) := by
  have hend : Scanned (line d ("end " ++ kind.keyword))
      [.word "end", .word kind.keyword, .symbol ':'] :=
    scanned_words d (by simp) (by decide) (isWord_keyword kind)
  rw [FunctionDecl.tokens, ← List.append_assoc]
  exact ((scanned_headLine d kind hn hps).append hbody).append hend

theorem scanned_class {name : String} {fields : List Dim} {methods : List FunctionDecl}
    (hn : isName name = true) (hfields : fields.all (fun f => isName f.name) = true)
    (hmethods : Scanned (FunctionDecl.sourcesAt (d + 1) methods)
      (FunctionDecl.allTokens methods)) :
    Scanned (ClassDecl.sourceAt d ⟨l, name, fields, methods⟩)
      (ClassDecl.tokens ⟨l, name, fields, methods⟩) := by
  simp only [isName, Bool.and_eq_true] at hn
  have hhead : Scanned (line d ("class " ++ name)) [.word "class", .word name, .symbol ':'] :=
    scanned_words d (by simp) (by decide) hn.1
  have hend : Scanned (line d "end class") [.word "end", .word "class", .symbol ':'] :=
    scanned_words d (by simp) (by decide) (by decide)
  have htokens : ClassDecl.tokens ⟨l, name, fields, methods⟩
      = [.word "class", .word name, .symbol ':']
        ++ (fields.flatMap fun f => [.word "dim", .word f.name, .symbol ':'])
        ++ FunctionDecl.allTokens methods ++ [.word "end", .word "class", .symbol ':'] := by
    simp [ClassDecl.tokens]
  rw [htokens]
  exact ((hhead.append (scanned_fields (d + 1) hfields)).append hmethods).append hend

end

/-- the property that scanning a block asks of the expressions that stand as statements -/
abbrev scansCall (_ : Nat) (e : Expr) : Bool := e.scans

mutual
theorem Stmt.scanned (k d : Nat) : ∀ s : Stmt, s.wellFormed k = true →
    s.everyCall scansCall k = true → Scanned (s.sourceAt d) s.tokens
  | .function decl, hw, hc => FunctionDecl.scanned k d decl hw hc
  | .class decl, hw, hc => ClassDecl.scanned k d decl hw hc
  | .dim decl, hw, _ => scanned_dim d hw
  | .assign l t v, hw, _ => by
    simp only [Stmt.wellFormed, Expr.fitsTarget, Expr.fits, Bool.and_eq_true] at hw
    exact scanned_assign d l hw.1.1.1.2 hw.2.1.1
  | .cond l c t e, hw, hc => by
    simp only [Stmt.wellFormed, Stmt.everyCall, Expr.fits, Bool.and_eq_true] at hw hc
    exact scanned_cond d l hw.1.1.1.1 (Block.scanned k (d + 1) t hw.1.2 hc.1)
      (Block.scanned_else k d e hw.2 hc.2)
  | .expr l e, _, hc => scanned_expr d l hc
  | .optionExplicit _, _, _ => scanned_words d rfl (by decide) (by decide)
  | .exit _ kind, _, _ => scanned_words d (by simp) (by decide) (isWord_keyword kind)

theorem Stmt.scanned_all (k d : Nat) : ∀ ss : List Stmt, Stmt.allWellFormed k ss = true →
    Stmt.allEveryCall scansCall k ss = true → Scanned (Stmt.sourcesAt d ss) (Stmt.allTokens ss)
  | [], _, _ => scanned_empty
  | s :: ss, hw, hc => by
    simp only [Stmt.allWellFormed, Stmt.allEveryCall, Bool.and_eq_true] at hw hc
    exact (Stmt.scanned k d s hw.1 hc.1).append (Stmt.scanned_all k d ss hw.2 hc.2)

theorem Block.scanned (k d : Nat) : ∀ b : Block, b.wellFormed k = true →
    b.everyCall scansCall k = true → Scanned (b.sourceAt d) b.tokens
  | ⟨_, ss⟩, hw, hc => by
    cases k with
    | zero => cases hw
    | succ k => exact Stmt.scanned_all k d ss hw hc

theorem Block.scanned_else (k d : Nat) : ∀ b : Block, b.elseWellFormed k = true →
    b.elseEveryCall scansCall k = true → Scanned (b.elseAt d) b.elseTokens
  | ⟨_, []⟩, _, _ => scanned_empty
  | ⟨l, s :: ss⟩, hw, hc => by
    cases h : Block.isCondition ⟨l, s :: ss⟩ with
    | true =>
      match s, ss, h with
      | .cond l' c t e, [], _ =>
        simp only [Block.elseWellFormed, Block.elseEveryCall, Expr.fits, Bool.and_eq_true] at hw hc
        exact scanned_elseIf d l hw.1.1.1.1 (Block.scanned k (d + 1) t hw.1.2 hc.1)
          (Block.scanned_else k d e hw.2 hc.2) l'
    | false =>
      rw [Block.elseWellFormed_of_not_isCondition k h] at hw
      rw [Block.elseEveryCall_of_not_isCondition scansCall k h] at hc
      cases k with
      | zero => cases hw
      | succ k => exact scanned_elseBlock d l h (Stmt.scanned_all k (d + 1) (s :: ss) hw hc)

theorem FunctionDecl.scanned (k d : Nat) : ∀ f : FunctionDecl, f.wellFormed k = true →
    f.everyCall scansCall k = true → Scanned (f.sourceAt d) f.tokens
  | ⟨l, kind, name, ps, body⟩, hw, hc => by
    simp only [FunctionDecl.wellFormed, Bool.and_eq_true] at hw
    exact scanned_function d l hw.1.1 hw.1.2 (Block.scanned k (d + 1) body hw.2 hc)

theorem FunctionDecl.scanned_all (k d : Nat) : ∀ fs : List FunctionDecl,
    FunctionDecl.allWellFormed k fs = true → FunctionDecl.allEveryCall scansCall k fs = true →
    Scanned (FunctionDecl.sourcesAt d fs) (FunctionDecl.allTokens fs)
  | [], _, _ => scanned_empty
  | f :: fs, hw, hc => by
    simp only [FunctionDecl.allWellFormed, FunctionDecl.allEveryCall, Bool.and_eq_true] at hw hc
    exact (FunctionDecl.scanned k d f hw.1 hc.1).append
      (FunctionDecl.scanned_all k d fs hw.2 hc.2)

theorem ClassDecl.scanned (k d : Nat) : ∀ c : ClassDecl, c.wellFormed k = true →
    c.everyCall scansCall k = true → Scanned (c.sourceAt d) c.tokens
  | ⟨l, _, _, methods⟩, hw, hc => by
    simp only [ClassDecl.wellFormed, Bool.and_eq_true] at hw
    exact scanned_class d l hw.1.1 hw.1.2 (FunctionDecl.scanned_all k (d + 1) methods hw.2 hc)
end

/-- **Scanning the source text of a program gives its tokens.** -/
theorem Block.kinds_source {b : Block} {k : Nat} (hw : b.wellFormed k = true)
    (hc : b.everyCall scansCall k = true) :
    kinds b.source.toList = b.tokens.map .ok := by
  have h := Block.scanned k 0 b hw hc []
  rw [List.append_nil, kinds_nil, List.append_nil] at h
  exact h

end PageScript
