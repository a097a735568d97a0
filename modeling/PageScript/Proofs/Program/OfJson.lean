import Mathlib.Data.List.Nodup
import PageScript.Program.Json
import PageScript.Proofs.Program.Locations
import PageScript.Proofs.Token.Kinds

/-!
# Reading programs from JSON

How every kind of node is read, once the members of its record are known, and that what is written
is read back.

* `Json.members?_ofFields`                  the members of a record that has been written;
* `Linked.Expr.ofJson?_binary`, `Linked.Stmt.ofJson?_cond`, …   one equation for each kind of node;
* `Location.Storable`                       a line and a column that fit into 64 bits;
* `Linked.Block.ofJson?_toJson`             a tree with such locations is read back, every operation
                                            with the function of its operator.
-/

namespace PageScript

/-! ## records -/

namespace Json

theorem getAll?_cons_of_notMem {f : Field} (fields : List Field) {names : List String}
    (h : f.name ∉ names) : getAll? (f :: fields) names = getAll? fields names := by
  induction names with
  | nil => rfl
  | cons name names ih =>
    have hne : f.name ≠ name := fun heq => h (heq ▸ List.mem_cons_self)
    have hrest := ih fun hmem => h (List.mem_cons_of_mem _ hmem)
    rw [getAll?, getAll?, get?_cons, if_neg hne, hrest]

theorem members?_ofFields {names : List String} {values : List Json} (hn : names.Nodup)
    (hl : names.length = values.length) :
    members? names (.ofFields (names.zip values)) = some values := by
  show getAll? _ names = some values
  induction names generalizing values with
  | nil =>
    obtain rfl : values = [] := List.eq_nil_of_length_eq_zero hl.symm
    rfl
  | cons name names ih =>
    cases values with
    | nil => cases hl
    | cons v values =>
      obtain ⟨hname, hn⟩ := List.nodup_cons.mp hn
      have hrest := ih hn (Nat.succ.inj hl)
      rw [List.zip_cons_cons, List.map_cons, getAll?, get?_cons, if_pos rfl,
        getAll?_cons_of_notMem _ hname, hrest]
      rfl

end Json

theorem listOfJson?_arr {α : Type} (item? : Json → Option α) (js : List Json) :
    listOfJson? item? (.arr js) = js.mapM item? := rfl

section

variable {v loc : Json}

/-! ## leaves -/

theorem Location.ofJson?_of_members {name line column : Json}
    (h : v.members? ["source_name", "line", "column"] = some [name, line, column]) :
    Location.ofJson? v
      = (do some ⟨← name.string?, ← line.natural?, ← column.natural?⟩) := by
  rw [Location.ofJson?, h]

theorem Dim.ofJson?_of_members {name : Json}
    (h : v.members? ["location", "name"] = some [loc, name]) :
    Dim.ofJson? v = (do some ⟨← Location.ofJson? loc, ← name.string?⟩) := by
  rw [Dim.ofJson?, h]

theorem Param.ofJson?_of_members {name byRef : Json}
    (h : Param.members? v = some [loc, name, byRef]) :
    Param.ofJson? v
      = (do some ⟨← Location.ofJson? loc, ← name.string?, ← passingOfJson? byRef⟩) := by
  rw [Param.ofJson?, h]

end

namespace Linked

/-! ## lists -/

theorem Expr.ofJsons?_eq (js : List Json) : Expr.ofJsons? js = js.mapM Expr.ofJson? := by
  induction js with
  | nil => rw [Expr.ofJsons?]; rfl
  | cons j js ih => rw [Expr.ofJsons?, ih, List.mapM_cons]; rfl

theorem Stmt.ofJsons?_eq (js : List Json) : Stmt.ofJsons? js = js.mapM Stmt.ofJson? := by
  induction js with
  | nil => rw [Stmt.ofJsons?]; rfl
  | cons j js ih => rw [Stmt.ofJsons?, ih, List.mapM_cons]; rfl

theorem FunctionDecl.ofJsons?_eq (js : List Json) :
    FunctionDecl.ofJsons? js = js.mapM FunctionDecl.ofJson? := by
  induction js with
  | nil => rw [FunctionDecl.ofJsons?]; rfl
  | cons j js ih => rw [FunctionDecl.ofJsons?, ih, List.mapM_cons]; rfl

section

variable {v loc : Json}

/-! ## nodes of expressions -/

theorem Expr.ofJson?_literal {value : Json}
    (h : v.members? ["location", "value"] = some [loc, value]) :
    Expr.ofJson? (.obj [⟨"Literal", v⟩])
      = (do some (.literal (← Location.ofJson? loc) (← Literal.ofJson? value))) := by
  rw [Expr.ofJson?]
  simp only [Json.variant?, h]

theorem Expr.ofJson?_path {names : Json}
    (h : v.members? ["location", "path"] = some [loc, names]) :
    Expr.ofJson? (.obj [⟨"Variable", v⟩])
      = (do some (.path (← Location.ofJson? loc) (← listOfJson? Json.string? names))) := by
  rw [Expr.ofJson?]
  simp only [Json.variant?, h]

theorem Expr.ofJson?_binary {op left right : Json}
    (h : v.members? ["location", "op", "left", "right"] = some [loc, op, left, right]) :
    Expr.ofJson? (.obj [⟨"Binary", v⟩])
      = (do
          let loc ← Location.ofJson? loc
          let op ← op.unit?.bind BinaryOp.ofTag?
          some (.binary loc op op.apply (← Expr.ofJson? left) (← Expr.ofJson? right))) := by
  rw [Expr.ofJson?]
  simp only [Json.variant?]
  rw [h]

theorem Expr.ofJson?_unary {op operand : Json}
    (h : v.members? ["location", "op", "operand"] = some [loc, op, operand]) :
    Expr.ofJson? (.obj [⟨"Unary", v⟩])
      = (do
          let loc ← Location.ofJson? loc
          let op ← op.unit?.bind UnaryOp.ofTag?
          some (.unary loc op op.apply (← Expr.ofJson? operand))) := by
  rw [Expr.ofJson?]
  simp only [Json.variant?]
  rw [h]

theorem Expr.ofJson?_call {callee args : Json}
    (h : v.members? ["location", "callee", "args"] = some [loc, callee, args]) :
    Expr.ofJson? (.obj [⟨"Call", v⟩])
      = (do some (.call (← Location.ofJson? loc) (← Expr.ofJson? callee)
          (← listOfJson? Expr.ofJson? args))) := by
  rw [Expr.ofJson?]
  simp only [Json.variant?, listOfJson?, Expr.ofJsons?_eq]
  rw [h]
  dsimp only
  cases args.items? with
  | none => simp
  | some items => rfl

theorem Expr.ofJson?_new {className : Json}
    (h : v.members? ["location", "class_name"] = some [loc, className]) :
    Expr.ofJson? (.obj [⟨"New", v⟩])
      = (do some (.new (← Location.ofJson? loc) (← className.string?))) := by
  rw [Expr.ofJson?]
  simp only [Json.variant?, h]

theorem Expr.ofJson?_paren {inner : Json}
    (h : v.members? ["location", "inner"] = some [loc, inner]) :
    Expr.ofJson? (.obj [⟨"Parenthesis", v⟩])
      = (do some (.paren (← Location.ofJson? loc) (← Expr.ofJson? inner))) := by
  rw [Expr.ofJson?]
  simp only [Json.variant?]
  rw [h]

/-! ## nodes of statements -/

theorem Stmt.ofJson?_function (v : Json) :
    Stmt.ofJson? (.obj [⟨"Function", v⟩]) = (FunctionDecl.ofJson? v).map .function := by
  rw [Stmt.ofJson?]
  simp only [Json.variant?]

theorem Stmt.ofJson?_class (v : Json) :
    Stmt.ofJson? (.obj [⟨"Class", v⟩]) = (ClassDecl.ofJson? v).map .class := by
  rw [Stmt.ofJson?]
  simp only [Json.variant?]

theorem Stmt.ofJson?_dim (v : Json) :
    Stmt.ofJson? (.obj [⟨"Dim", v⟩]) = (Dim.ofJson? v).map .dim := by
  rw [Stmt.ofJson?]
  simp only [Json.variant?]

theorem Stmt.ofJson?_assign {target value : Json}
    (h : v.members? ["location", "target", "value"] = some [loc, target, value]) :
    Stmt.ofJson? (.obj [⟨"Assignment", v⟩])
      = (do some (.assign (← Location.ofJson? loc) (← Expr.ofJson? target)
          (← Expr.ofJson? value))) := by
  rw [Stmt.ofJson?]
  simp only [Json.variant?, h]

theorem Stmt.ofJson?_cond {condition thenBlock elseBlock : Json}
    (h : v.members? ["location", "condition", "then_block", "else_block"]
      = some [loc, condition, thenBlock, elseBlock]) :
    Stmt.ofJson? (.obj [⟨"If", v⟩])
      = (do some (.cond (← Location.ofJson? loc) (← Expr.ofJson? condition)
          (← Block.ofJson? thenBlock) (← Block.ofJson? elseBlock))) := by
  rw [Stmt.ofJson?]
  simp only [Json.variant?]
  rw [h]

theorem Stmt.ofJson?_expr {e : Json}
    (h : v.members? ["location", "expression"] = some [loc, e]) :
    Stmt.ofJson? (.obj [⟨"Expression", v⟩])
      = (do some (.expr (← Location.ofJson? loc) (← Expr.ofJson? e))) := by
  rw [Stmt.ofJson?]
  simp only [Json.variant?, h]

theorem Stmt.ofJson?_optionExplicit (h : v.members? ["location"] = some [loc]) :
    Stmt.ofJson? (.obj [⟨"OptionExplicit", v⟩])
      = (do some (.optionExplicit (← Location.ofJson? loc))) := by
  rw [Stmt.ofJson?]
  simp only [Json.variant?, h]

theorem Stmt.ofJson?_exit {kind : Json} (h : v.members? ["location", "kind"] = some [loc, kind]) :
    Stmt.ofJson? (.obj [⟨"Exit", v⟩])
      = (do some (.exit (← Location.ofJson? loc) (← kind.unit?.bind FunctionKind.ofTag?))) := by
  rw [Stmt.ofJson?]
  simp only [Json.variant?, h]

/-! ## blocks and declarations -/

theorem Block.ofJson?_of_members {statements : Json}
    (h : v.members? ["location", "statements"] = some [loc, statements]) :
    Block.ofJson? v
      = (do some ⟨← Location.ofJson? loc, ← listOfJson? Stmt.ofJson? statements⟩) := by
  rw [Block.ofJson?]
  simp only [listOfJson?, Stmt.ofJsons?_eq]
  rw [h]
  dsimp only
  cases statements.items? with
  | none => simp
  | some items => rfl

theorem FunctionDecl.ofJson?_of_members {kind name params body : Json}
    (h : v.members? ["location", "kind", "name", "params", "body"]
      = some [loc, kind, name, params, body]) :
    FunctionDecl.ofJson? v
      = (do some ⟨← Location.ofJson? loc, ← kind.unit?.bind FunctionKind.ofTag?, ← name.string?,
          ← listOfJson? Param.ofJson? params, ← Block.ofJson? body⟩) := by
  rw [FunctionDecl.ofJson?, h]

theorem ClassDecl.ofJson?_of_members {name fields methods : Json}
    (h : v.members? ["location", "name", "fields", "methods"]
      = some [loc, name, fields, methods]) :
    ClassDecl.ofJson? v
      = (do some ⟨← Location.ofJson? loc, ← name.string?, ← listOfJson? Dim.ofJson? fields,
          ← listOfJson? FunctionDecl.ofJson? methods⟩) := by
  rw [ClassDecl.ofJson?]
  simp only [listOfJson?, FunctionDecl.ofJsons?_eq]
  rw [h]
  dsimp only
  cases methods.items? with
  | none => simp
  | some items => rfl

end

end Linked

/-! ## what is written is read back -/

/-- a line and a column that fit into 64 bits -/
def Location.Storable (l : Location) : Prop := l.line < Text.naturals ∧ l.column < Text.naturals

instance (l : Location) : Decidable l.Storable := inferInstanceAs (Decidable (_ ∧ _))

theorem Json.natural?_int {n : Nat} (h : n < Text.naturals) : natural? (.int n) = some n := by
  have hn : (0 : Int) ≤ n ∧ (n : Int) < Text.naturals := ⟨Int.natCast_nonneg n, by exact_mod_cast h⟩
  rw [natural?, if_pos hn, Int.toNat_natCast]

theorem Location.ofJson?_toJson {l : Location} (h : l.Storable) :
    Location.ofJson? l.toJson = some l := by
  refine (Location.ofJson?_of_members (Json.members?_ofFields (by decide) rfl)).trans ?_
  rw [Json.natural?_int h.1, Json.natural?_int h.2]
  rfl

theorem Literal.ofJson?_toJson (v : Literal) : Literal.ofJson? v.toJson = some v := by
  cases v with
  | integer n =>
    show (Text.narrow n.toInt).map Literal.integer = _
    rw [Text.narrow_toInt]
    rfl
  | string s => rfl
  | boolean b => rfl

theorem Dim.ofJson?_toJson {d : Dim} (h : d.loc.Storable) : Dim.ofJson? d.toJson = some d := by
  refine (Dim.ofJson?_of_members (Json.members?_ofFields (by decide) rfl)).trans ?_
  rw [Location.ofJson?_toJson h]
  rfl

theorem passingOfJson?_passingToJson (byRef : Option Bool) :
    passingOfJson? (passingToJson byRef) = some byRef := by
  cases byRef <;> rfl

theorem Param.ofJson?_toJson {p : Param} (h : p.loc.Storable) :
    Param.ofJson? p.toJson = some p := by
  have hm : Param.members? p.toJson = some [p.loc.toJson, .str p.name, passingToJson p.byRef] := rfl
  rw [Param.ofJson?_of_members hm, Location.ofJson?_toJson h, passingOfJson?_passingToJson]
  rfl

theorem mapM_map_eq_some {α : Type} {f : α → Json} {g : Json → Option α} {as : List α}
    (h : ∀ a ∈ as, g (f a) = some a) : (as.map f).mapM g = some as := by
  induction as with
  | nil => rfl
  | cons a as ih =>
    obtain ⟨ha, has⟩ := List.forall_mem_cons.mp h
    rw [List.map_cons, List.mapM_cons, ha, ih has]
    rfl

namespace Linked

mutual
theorem Expr.ofJson?_toJson :
    ∀ {e : Expr}, (∀ l ∈ e.erase.locations, l.Storable) → Expr.ofJson? e.toJson = some e.erase.link
  | .literal l v, h => by
    refine (Expr.ofJson?_literal (Json.members?_ofFields (by decide) rfl)).trans ?_
    rw [Location.ofJson?_toJson (h l List.mem_cons_self), Literal.ofJson?_toJson]
    rfl
  | .path l ns, h => by
    have hnames : (ns.map Json.str).mapM Json.string? = some ns := mapM_map_eq_some fun _ _ => rfl
    refine (Expr.ofJson?_path (Json.members?_ofFields (by decide) rfl)).trans ?_
    rw [Location.ofJson?_toJson (h l List.mem_cons_self), listOfJson?_arr, hnames]
    rfl
  | .binary l op _ a b, h => by
    obtain ⟨hl, ha, hb⟩ := forall_mem_cons_append.mp h
    refine (Expr.ofJson?_binary (Json.members?_ofFields (by decide) rfl)).trans ?_
    rw [Location.ofJson?_toJson hl, Expr.ofJson?_toJson ha, Expr.ofJson?_toJson hb, Json.unit?,
      Option.bind_some, BinaryOp.ofTag?_tag]
    rfl
  | .unary l op _ a, h => by
    obtain ⟨hl, ha⟩ := List.forall_mem_cons.mp h
    refine (Expr.ofJson?_unary (Json.members?_ofFields (by decide) rfl)).trans ?_
    rw [Location.ofJson?_toJson hl, Expr.ofJson?_toJson ha, Json.unit?, Option.bind_some,
      UnaryOp.ofTag?_tag]
    rfl
  | .call l f as, h => by
    obtain ⟨hl, hf, has⟩ := forall_mem_cons_append.mp h
    refine (Expr.ofJson?_call (Json.members?_ofFields (by decide) rfl)).trans ?_
    rw [Location.ofJson?_toJson hl, Expr.ofJson?_toJson hf, listOfJson?_arr,
      Expr.mapM_toJsons has]
    rfl
  | .new l c, h => by
    refine (Expr.ofJson?_new (Json.members?_ofFields (by decide) rfl)).trans ?_
    rw [Location.ofJson?_toJson (h l List.mem_cons_self)]
    rfl
  | .paren l a, h => by
    obtain ⟨hl, ha⟩ := List.forall_mem_cons.mp h
    refine (Expr.ofJson?_paren (Json.members?_ofFields (by decide) rfl)).trans ?_
    rw [Location.ofJson?_toJson hl, Expr.ofJson?_toJson ha]
    rfl

theorem Expr.mapM_toJsons :
    ∀ {es : List Expr}, (∀ l ∈ PageScript.Expr.allLocations (Expr.eraseAll es), l.Storable) →
      (Expr.toJsons es).mapM Expr.ofJson?
        = some (PageScript.Expr.linkAll (Expr.eraseAll es))
  | [], _ => rfl
  | e :: es, h => by
    obtain ⟨he, hes⟩ := List.forall_mem_append.mp h
    rw [Expr.toJsons, List.mapM_cons, Expr.ofJson?_toJson he, Expr.mapM_toJsons hes]
    rfl
end

mutual
theorem Stmt.ofJson?_toJson :
    ∀ {s : Stmt}, (∀ l ∈ s.erase.locations, l.Storable) → Stmt.ofJson? s.toJson = some s.erase.link
  | .function d, h => by
    refine (Stmt.ofJson?_function _).trans ?_
    rw [FunctionDecl.ofJson?_toJson h]
    rfl
  | .class d, h => by
    refine (Stmt.ofJson?_class _).trans ?_
    rw [ClassDecl.ofJson?_toJson h]
    rfl
  | .dim d, h => by
    refine (Stmt.ofJson?_dim _).trans ?_
    rw [Dim.ofJson?_toJson (h d.loc List.mem_cons_self)]
    rfl
  | .assign l t v, h => by
    obtain ⟨hl, ht, hv⟩ := forall_mem_cons_append.mp h
    refine (Stmt.ofJson?_assign (Json.members?_ofFields (by decide) rfl)).trans ?_
    rw [Location.ofJson?_toJson hl, Expr.ofJson?_toJson ht, Expr.ofJson?_toJson hv]
    rfl
  | .cond l c t e, h => by
    obtain ⟨hl, hc, hte⟩ := forall_mem_cons_append.mp h
    obtain ⟨ht, he⟩ := List.forall_mem_append.mp hte
    refine (Stmt.ofJson?_cond (Json.members?_ofFields (by decide) rfl)).trans ?_
    rw [Location.ofJson?_toJson hl, Expr.ofJson?_toJson hc, Block.ofJson?_toJson ht,
      Block.ofJson?_toJson he]
    rfl
  | .expr l e, h => by
    obtain ⟨hl, he⟩ := List.forall_mem_cons.mp h
    refine (Stmt.ofJson?_expr (Json.members?_ofFields (by decide) rfl)).trans ?_
    rw [Location.ofJson?_toJson hl, Expr.ofJson?_toJson he]
    rfl
  | .optionExplicit l, h => by
    refine (Stmt.ofJson?_optionExplicit (Json.members?_ofFields (by decide) rfl)).trans ?_
    rw [Location.ofJson?_toJson (h l List.mem_cons_self)]
    rfl
  | .exit l k, h => by
    refine (Stmt.ofJson?_exit (Json.members?_ofFields (by decide) rfl)).trans ?_
    rw [Location.ofJson?_toJson (h l List.mem_cons_self), Json.unit?, Option.bind_some,
      FunctionKind.ofTag?_tag]
    rfl

theorem Stmt.mapM_toJsons :
    ∀ {ss : List Stmt}, (∀ l ∈ PageScript.Stmt.allLocations (Stmt.eraseAll ss), l.Storable) →
      (Stmt.toJsons ss).mapM Stmt.ofJson?
        = some (PageScript.Stmt.linkAll (Stmt.eraseAll ss))
  | [], _ => rfl
  | s :: ss, h => by
    obtain ⟨hs, hss⟩ := List.forall_mem_append.mp h
    rw [Stmt.toJsons, List.mapM_cons, Stmt.ofJson?_toJson hs, Stmt.mapM_toJsons hss]
    rfl

theorem Block.ofJson?_toJson :
    ∀ {b : Block}, (∀ l ∈ b.erase.locations, l.Storable) →
      Block.ofJson? b.toJson = some b.erase.link
  | ⟨l, ss⟩, h => by
    obtain ⟨hl, hss⟩ := List.forall_mem_cons.mp h
    refine (Block.ofJson?_of_members (Json.members?_ofFields (by decide) rfl)).trans ?_
    rw [Location.ofJson?_toJson hl, listOfJson?_arr, Stmt.mapM_toJsons hss]
    rfl

theorem FunctionDecl.ofJson?_toJson :
    ∀ {d : FunctionDecl}, (∀ l ∈ d.erase.locations, l.Storable) →
      FunctionDecl.ofJson? d.toJson = some d.erase.link
  | ⟨l, k, n, ps, b⟩, h => by
    obtain ⟨hl, hps, hb⟩ := forall_mem_cons_append.mp h
    have hparams : (ps.map Param.toJson).mapM Param.ofJson? = some ps :=
      mapM_map_eq_some fun p hp => Param.ofJson?_toJson (hps p.loc (List.mem_map_of_mem hp))
    refine (FunctionDecl.ofJson?_of_members (Json.members?_ofFields (by decide) rfl)).trans ?_
    rw [Location.ofJson?_toJson hl, Block.ofJson?_toJson hb, listOfJson?_arr, hparams, Json.unit?,
      Option.bind_some, FunctionKind.ofTag?_tag]
    rfl

theorem FunctionDecl.mapM_toJsons :
    ∀ {ds : List FunctionDecl},
      (∀ l ∈ PageScript.FunctionDecl.allLocations (FunctionDecl.eraseAll ds), l.Storable) →
      (FunctionDecl.toJsons ds).mapM FunctionDecl.ofJson?
        = some (PageScript.FunctionDecl.linkAll (FunctionDecl.eraseAll ds))
  | [], _ => rfl
  | d :: ds, h => by
    obtain ⟨hd, hds⟩ := List.forall_mem_append.mp h
    rw [FunctionDecl.toJsons, List.mapM_cons, FunctionDecl.ofJson?_toJson hd,
      FunctionDecl.mapM_toJsons hds]
    rfl

theorem ClassDecl.ofJson?_toJson :
    ∀ {d : ClassDecl}, (∀ l ∈ d.erase.locations, l.Storable) →
      ClassDecl.ofJson? d.toJson = some d.erase.link
  | ⟨l, n, fs, ms⟩, h => by
    obtain ⟨hl, hfs, hms⟩ := forall_mem_cons_append.mp h
    have hfields : (fs.map Dim.toJson).mapM Dim.ofJson? = some fs :=
      mapM_map_eq_some fun d hd => Dim.ofJson?_toJson (hfs d.loc (List.mem_map_of_mem hd))
    refine (ClassDecl.ofJson?_of_members (Json.members?_ofFields (by decide) rfl)).trans ?_
    rw [Location.ofJson?_toJson hl, listOfJson?_arr, listOfJson?_arr, hfields,
      FunctionDecl.mapM_toJsons hms]
    rfl
end

end Linked

end PageScript
