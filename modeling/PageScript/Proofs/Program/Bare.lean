import PageScript.Program.Sexpr

/-!
# Programs up to locations

`bare` is a tree with every location replaced by one and the same.  Two trees are equal up to
locations exactly when their bare trees are equal, and everything that is written about a program
is written about its bare tree:

* `Expr.source_bare`, `Block.source_bare`   the source text does not see locations;
* `Block.sexpr_bare`                        nor does the form of nested lists.
-/

namespace PageScript

/-! ## bare trees -/

mutual
def Expr.bare : Expr → Expr
  | .literal _ value => .literal default value
  | .path _ names => .path default names
  | .binary _ op left right => .binary default op left.bare right.bare
  | .unary _ op operand => .unary default op operand.bare
  | .call _ callee args => .call default callee.bare (Expr.bares args)
  | .new _ className => .new default className
  | .paren _ inner => .paren default inner.bare

def Expr.bares : List Expr → List Expr
  | [] => []
  | e :: es => e.bare :: Expr.bares es
end

def Param.bare (p : Param) : Param := { p with loc := default }

def Dim.bare (d : Dim) : Dim := { d with loc := default }

mutual
def Stmt.bare : Stmt → Stmt
  | .function decl => .function decl.bare
  | .class decl => .class decl.bare
  | .dim decl => .dim decl.bare
  | .assign _ target value => .assign default target.bare value.bare
  | .cond _ condition thenBlock elseBlock =>
    .cond default condition.bare thenBlock.bare elseBlock.bare
  | .expr _ e => .expr default e.bare
  | .optionExplicit _ => .optionExplicit default
  | .exit _ kind => .exit default kind

def Stmt.bares : List Stmt → List Stmt
  | [] => []
  | s :: ss => s.bare :: Stmt.bares ss

def Block.bare : Block → Block
  | ⟨_, statements⟩ => ⟨default, Stmt.bares statements⟩

def FunctionDecl.bare : FunctionDecl → FunctionDecl
  | ⟨_, kind, name, params, body⟩ => ⟨default, kind, name, params.map Param.bare, body.bare⟩

def FunctionDecl.bares : List FunctionDecl → List FunctionDecl
  | [] => []
  | d :: ds => d.bare :: FunctionDecl.bares ds

def ClassDecl.bare : ClassDecl → ClassDecl
  | ⟨_, name, fields, methods⟩ =>
    ⟨default, name, fields.map Dim.bare, FunctionDecl.bares methods⟩
end

theorem Expr.bares_eq_map (es : List Expr) : Expr.bares es = es.map Expr.bare := by
  induction es with
  | nil => rfl
  | cons e es ih => rw [Expr.bares, ih, List.map_cons]

theorem Stmt.bares_eq_map (ss : List Stmt) : Stmt.bares ss = ss.map Stmt.bare := by
  induction ss with
  | nil => rfl
  | cons s ss ih => rw [Stmt.bares, ih, List.map_cons]

theorem FunctionDecl.bares_eq_map (ds : List FunctionDecl) :
    FunctionDecl.bares ds = ds.map FunctionDecl.bare := by
  induction ds with
  | nil => rfl
  | cons d ds ih => rw [FunctionDecl.bares, ih, List.map_cons]

/-! ## the source text of a bare tree -/

mutual
theorem Expr.source_bare : ∀ e : Expr, e.bare.source = e.source
  | .literal .. => rfl
  | .path .. => rfl
  | .binary _ op l r => by
    show l.bare.source ++ " " ++ op.symbol ++ " " ++ r.bare.source = _
    rw [Expr.source_bare l, Expr.source_bare r]
    rfl
  | .unary _ .neg a => by
    show "-" ++ a.bare.source = _
    rw [Expr.source_bare a]
    rfl
  | .unary _ .not a => by
    show "not " ++ a.bare.source = _
    rw [Expr.source_bare a]
    rfl
  | .call _ f as => by
    show f.bare.source ++ "(" ++ ", ".intercalate (Expr.sources (Expr.bares as)) ++ ")" = _
    rw [Expr.source_bare f, Expr.sources_bares as]
    rfl
  | .new .. => rfl
  | .paren _ a => by
    show "(" ++ a.bare.source ++ ")" = _
    rw [Expr.source_bare a]
    rfl

theorem Expr.sources_bares : ∀ es : List Expr, Expr.sources (Expr.bares es) = Expr.sources es
  | [] => rfl
  | e :: es => by
    show e.bare.source :: Expr.sources (Expr.bares es) = _
    rw [Expr.source_bare e, Expr.sources_bares es]
    rfl
end

theorem Param.source_bare (p : Param) : p.bare.source = p.source := rfl

theorem Dim.source_bare (d : Dim) : d.bare.source = d.source := rfl

/-- a tree whose bare tree writes a text writes that text itself -/
theorem Expr.of_bare_call_text {e : Expr} {l l' l'' : Location} {names : List String}
    {text : String} (h : e.bare = .call l (.path l' names) [.literal l'' (.string text)]) :
    ∃ k k' k'', e = .call k (.path k' names) [.literal k'' (.string text)] := by
  cases e with
  | call k f as =>
    obtain ⟨-, hf, has⟩ := Expr.call.inj h
    cases f with
    | path k' ns =>
      obtain ⟨-, rfl⟩ := Expr.path.inj hf
      cases as with
      | nil => cases has
      | cons a as =>
        obtain ⟨ha, hnil⟩ := List.cons.inj has
        cases as with
        | nil =>
          cases a with
          | literal k'' v =>
            obtain ⟨-, rfl⟩ := Expr.literal.inj ha
            exact ⟨k, k', k'', rfl⟩
          | _ => cases ha
        | cons _ _ => cases hnil
    | _ => cases hf
  | _ => cases h

theorem chunkText?_bare (e : Expr) : chunkText? e.bare = chunkText? e := by
  fun_cases chunkText? e with
  | case1 => simp_all [Expr.bare, Expr.bares, chunkText?]
  | case2 => simp_all [Expr.bare, Expr.bares, chunkText?]
  | case3 e hne =>
    unfold chunkText?
    split
    · next heq =>
      obtain ⟨k, k', k'', rfl⟩ := Expr.of_bare_call_text heq
      exact absurd rfl (hne _ _ _ _ _ _)
    · rfl

theorem Expr.statement_bare (e : Expr) : e.bare.statement = e.statement := by
  cases e with
  | call l f as =>
    cases f with
    | path l' ns =>
      cases as with
      | nil => rfl
      | cons a as =>
        show dotted ns ++ " " ++ ", ".intercalate (Expr.sources (Expr.bares (a :: as))) = _
        rw [Expr.sources_bares]
        rfl
    | _ =>
      show "call " ++ (Expr.bare (.call l _ as)).source = _
      rw [Expr.source_bare]
      rfl
  | _ =>
    show "call " ++ (Expr.bare _).source = _
    rw [Expr.source_bare]
    rfl

/-- the block holds one condition and nothing else -/
def Block.isCondition : Block → Bool
  | ⟨_, [.cond ..]⟩ => true
  | _ => false

theorem Block.ne_condition {l : Location} {s : Stmt} {ss : List Stmt}
    (h : Block.isCondition ⟨l, s :: ss⟩ = false) (l' : Location) (c : Expr) (t e : Block) :
    s = .cond l' c t e → ss = [] → False := by
  rintro rfl rfl
  cases h

theorem Block.elseAt_of_not_isCondition (d : Nat) {l : Location} {s : Stmt} {ss : List Stmt}
    (h : Block.isCondition ⟨l, s :: ss⟩ = false) :
    Block.elseAt d ⟨l, s :: ss⟩
      = line d "else" ++ s.sourceAt (d + 1) ++ Stmt.sourcesAt (d + 1) ss := by
  exact Block.elseAt.eq_3 d l s ss (Block.ne_condition h)

theorem Block.not_isCondition_bare {l : Location} {s : Stmt} {ss : List Stmt}
    (h : Block.isCondition ⟨l, s :: ss⟩ = false) :
    Block.isCondition ⟨default, s.bare :: Stmt.bares ss⟩ = false := by
  cases ss with
  | nil =>
    cases s with
    | cond l' c t e => cases h
    | _ => rfl
  | cons s' ss => cases s <;> rfl

theorem headLine_bare (kind : FunctionKind) (name : String) (ps : List Param) :
    headLine kind name (ps.map Param.bare) = headLine kind name ps := by
  unfold headLine
  rw [List.map_map]
  rfl

mutual
theorem Stmt.sourceAt_bare (d : Nat) : ∀ s : Stmt, s.bare.sourceAt d = s.sourceAt d
  | .function decl => FunctionDecl.sourceAt_bare d decl
  | .class decl => ClassDecl.sourceAt_bare d decl
  | .dim _ => rfl
  | .assign _ t v => by
    show line d (t.bare.source ++ " = " ++ v.bare.source) = _
    rw [Expr.source_bare, Expr.source_bare]
    rfl
  | .cond _ c t e => by
    show line d ("if " ++ c.bare.source ++ " then") ++ t.bare.sourceAt (d + 1)
      ++ e.bare.elseAt d ++ line d "end if" = _
    rw [Expr.source_bare, Block.sourceAt_bare (d + 1) t, Block.elseAt_bare d e]
    rfl
  | .expr _ e => by
    show (match chunkText? e.bare with
      | some text => line d ("%>" ++ text ++ "<%")
      | none => line d e.bare.statement) = _
    rw [chunkText?_bare, Expr.statement_bare]
    rfl
  | .optionExplicit _ => rfl
  | .exit _ _ => rfl

theorem Stmt.sourcesAt_bares (d : Nat) :
    ∀ ss : List Stmt, Stmt.sourcesAt d (Stmt.bares ss) = Stmt.sourcesAt d ss
  | [] => rfl
  | s :: ss => by
    show s.bare.sourceAt d ++ Stmt.sourcesAt d (Stmt.bares ss) = _
    rw [Stmt.sourceAt_bare d s, Stmt.sourcesAt_bares d ss]
    rfl

theorem Block.sourceAt_bare (d : Nat) : ∀ b : Block, b.bare.sourceAt d = b.sourceAt d
  | ⟨_, ss⟩ => Stmt.sourcesAt_bares d ss

theorem Block.elseAt_bare (d : Nat) : ∀ b : Block, b.bare.elseAt d = b.elseAt d
  | ⟨_, []⟩ => rfl
  | ⟨l, s :: ss⟩ => by
    cases h : Block.isCondition ⟨l, s :: ss⟩ with
    | true =>
      match s, ss, h with
      | .cond l' c t e, [], _ =>
        show line d ("elseif " ++ c.bare.source ++ " then") ++ t.bare.sourceAt (d + 1)
          ++ e.bare.elseAt d = _
        rw [Expr.source_bare, Block.sourceAt_bare (d + 1) t, Block.elseAt_bare d e]
        rfl
    | false =>
      show Block.elseAt d ⟨default, s.bare :: Stmt.bares ss⟩ = _
      rw [Block.elseAt_of_not_isCondition d h,
        Block.elseAt_of_not_isCondition d (Block.not_isCondition_bare h),
        Stmt.sourceAt_bare (d + 1) s, Stmt.sourcesAt_bares (d + 1) ss]

theorem FunctionDecl.sourceAt_bare (d : Nat) :
    ∀ f : FunctionDecl, f.bare.sourceAt d = f.sourceAt d
  | ⟨_, kind, name, ps, body⟩ => by
    show line d (headLine kind name (ps.map Param.bare)) ++ body.bare.sourceAt (d + 1)
      ++ line d ("end " ++ kind.keyword) = _
    rw [headLine_bare, Block.sourceAt_bare (d + 1) body]
    rfl

theorem FunctionDecl.sourcesAt_bares (d : Nat) :
    ∀ fs : List FunctionDecl,
      FunctionDecl.sourcesAt d (FunctionDecl.bares fs) = FunctionDecl.sourcesAt d fs
  | [] => rfl
  | f :: fs => by
    show f.bare.sourceAt d ++ FunctionDecl.sourcesAt d (FunctionDecl.bares fs) = _
    rw [FunctionDecl.sourceAt_bare d f, FunctionDecl.sourcesAt_bares d fs]
    rfl

theorem ClassDecl.sourceAt_bare (d : Nat) : ∀ c : ClassDecl, c.bare.sourceAt d = c.sourceAt d
  | ⟨_, name, fields, methods⟩ => by
    show line d ("class " ++ name)
      ++ String.join ((fields.map Dim.bare).map fun f => line (d + 1) f.source)
      ++ FunctionDecl.sourcesAt (d + 1) (FunctionDecl.bares methods) ++ line d "end class" = _
    rw [List.map_map, FunctionDecl.sourcesAt_bares (d + 1) methods]
    rfl
end

theorem Block.source_bare (b : Block) : b.bare.source = b.source := Block.sourceAt_bare 0 b

/-! ## the nested lists of a bare tree -/

mutual
theorem Expr.sexpr_bare : ∀ e : Expr, e.bare.sexpr = e.sexpr
  | .literal .. => rfl
  | .path .. => rfl
  | .binary _ op l r => by
    show listed [op.symbol, l.bare.sexpr, r.bare.sexpr] = _
    rw [Expr.sexpr_bare l, Expr.sexpr_bare r]
    rfl
  | .unary _ op a => by
    show listed [op.symbol, a.bare.sexpr] = _
    rw [Expr.sexpr_bare a]
    rfl
  | .call _ f as => by
    show listed ("call" :: f.bare.sexpr :: Expr.sexprs (Expr.bares as)) = _
    rw [Expr.sexpr_bare f, Expr.sexprs_bares as]
    rfl
  | .new .. => rfl
  | .paren _ a => by
    show listed ["paren", a.bare.sexpr] = _
    rw [Expr.sexpr_bare a]
    rfl

theorem Expr.sexprs_bares : ∀ es : List Expr, Expr.sexprs (Expr.bares es) = Expr.sexprs es
  | [] => rfl
  | e :: es => by
    show e.bare.sexpr :: Expr.sexprs (Expr.bares es) = _
    rw [Expr.sexpr_bare e, Expr.sexprs_bares es]
    rfl
end

mutual
theorem Stmt.sexpr_bare : ∀ s : Stmt, s.bare.sexpr = s.sexpr
  | .function decl => FunctionDecl.sexpr_bare decl
  | .class decl => ClassDecl.sexpr_bare decl
  | .dim _ => rfl
  | .assign _ t v => by
    show listed ["assign", t.bare.sexpr, v.bare.sexpr] = _
    rw [Expr.sexpr_bare, Expr.sexpr_bare]
    rfl
  | .cond _ c t e => by
    show listed ["if", c.bare.sexpr, t.bare.sexpr, e.bare.sexpr] = _
    rw [Expr.sexpr_bare, Block.sexpr_bare t, Block.sexpr_bare e]
    rfl
  | .expr _ e => Expr.sexpr_bare e
  | .optionExplicit _ => rfl
  | .exit _ _ => rfl

theorem Stmt.sexprs_bares : ∀ ss : List Stmt, Stmt.sexprs (Stmt.bares ss) = Stmt.sexprs ss
  | [] => rfl
  | s :: ss => by
    show s.bare.sexpr :: Stmt.sexprs (Stmt.bares ss) = _
    rw [Stmt.sexpr_bare s, Stmt.sexprs_bares ss]
    rfl

theorem Block.sexpr_bare : ∀ b : Block, b.bare.sexpr = b.sexpr
  | ⟨_, ss⟩ => by
    show listed ("block" :: Stmt.sexprs (Stmt.bares ss)) = _
    rw [Stmt.sexprs_bares ss]
    rfl

theorem FunctionDecl.sexpr_bare : ∀ f : FunctionDecl, f.bare.sexpr = f.sexpr
  | ⟨_, kind, name, ps, body⟩ => by
    show listed [kind.keyword, name, listed ((ps.map Param.bare).map Param.source),
      body.bare.sexpr] = _
    rw [List.map_map, Block.sexpr_bare body]
    rfl

theorem FunctionDecl.sexprs_bares :
    ∀ fs : List FunctionDecl, FunctionDecl.sexprs (FunctionDecl.bares fs) = FunctionDecl.sexprs fs
  | [] => rfl
  | f :: fs => by
    show f.bare.sexpr :: FunctionDecl.sexprs (FunctionDecl.bares fs) = _
    rw [FunctionDecl.sexpr_bare f, FunctionDecl.sexprs_bares fs]
    rfl

theorem ClassDecl.sexpr_bare : ∀ c : ClassDecl, c.bare.sexpr = c.sexpr
  | ⟨_, name, fields, methods⟩ => by
    show listed ("class" :: name :: (fields.map Dim.bare).map Dim.sexpr
      ++ FunctionDecl.sexprs (FunctionDecl.bares methods)) = _
    rw [List.map_map, FunctionDecl.sexprs_bares methods]
    rfl
end

end PageScript
