import PageScript.Proofs.Program.OfJson

/-!
# What is read holds the functions of its operators

Of an operation only its operator is written down.  Reading puts the function of the operator into
the node, and so every operation of a tree that has been read holds the function of its operator,
however deep it stands and whatever text it was read from.

* `Linked.Expr.MadeFrom`, `Linked.Expr.madeFrom`     the values that the parts of a node were read
                                                     from;
* `Linked.Block.captured_of_ofJson?`                 every operation in it is captured.
-/

namespace PageScript

theorem Json.eq_of_variant? {j v : Json} {tag : String} (h : j.variant? = some (tag, v)) :
    j = .obj [⟨tag, v⟩] := by
  match j, h with
  | .obj [⟨_, _⟩], h =>
    cases h
    rfl

theorem BinaryOp.tag_of_ofTag? {tag : String} {op : BinaryOp} (h : BinaryOp.ofTag? tag = some op) :
    op.tag = tag := by
  simpa using List.find?_some h

theorem UnaryOp.tag_of_ofTag? {tag : String} {op : UnaryOp} (h : UnaryOp.ofTag? tag = some op) :
    op.tag = tag := by
  unfold UnaryOp.ofTag? at h
  split at h
  · cases h; rfl
  · cases h; rfl
  · cases h

theorem unit?_of_bind_ofTag? {α : Type} {ofTag? : String → Option α} {tag : α → String}
    (hinv : ∀ {name op}, ofTag? name = some op → tag op = name) {j : Json} {op : α}
    (h : j.unit?.bind ofTag? = some op) : j.unit? = some (tag op) := by
  obtain ⟨name, hname, hop⟩ := Option.bind_eq_some_iff.mp h
  rw [hname, hinv hop]

/-- the first item of a list that is read, and the rest -/
theorem mapM_eq_some_cons {α : Type} {item? : Json → Option α} {js : List Json} {a : α}
    {as : List α} (h : js.mapM item? = some (a :: as)) :
    ∃ k, item? k = some a ∧ ∃ ks : List Json, ks.mapM item? = some as := by
  cases js with
  | nil => cases h
  | cons k ks =>
    rw [List.mapM_cons] at h
    obtain ⟨_, ha, h⟩ := Option.bind_eq_some_iff.mp h
    obtain ⟨_, has, h⟩ := Option.bind_eq_some_iff.mp h
    cases h
    exact ⟨k, ha, ks, has⟩

namespace Linked

/-! ## the parts of a node -/

/-- the value that an expression was read from, and those that its parts were read from -/
def Expr.MadeFrom (j : Json) : Expr → Prop
  | .binary _ op combine a b => ∃ v loc tag left right, j = .obj [⟨"Binary", v⟩] ∧
    v.members? ["location", "op", "left", "right"] = some [loc, tag, left, right] ∧
    tag.unit? = some op.tag ∧ combine = op.apply ∧
    Expr.ofJson? left = some a ∧ Expr.ofJson? right = some b
  | .unary _ op combine a => ∃ v loc tag operand, j = .obj [⟨"Unary", v⟩] ∧
    v.members? ["location", "op", "operand"] = some [loc, tag, operand] ∧
    tag.unit? = some op.tag ∧ combine = op.apply ∧ Expr.ofJson? operand = some a
  | .call _ f as =>
    (∃ callee, Expr.ofJson? callee = some f) ∧
    ∃ items : List Json, items.mapM Expr.ofJson? = some as
  | .paren _ a => ∃ inner, Expr.ofJson? inner = some a
  | .literal .. | .path .. | .new .. => True

theorem Expr.madeFrom {j : Json} {t : Expr} (h : Expr.ofJson? j = some t) : t.MadeFrom j := by
  rw [Expr.ofJson?] at h
  split at h
  case h_1 | h_2 | h_6 =>
    split at h
    · obtain ⟨_, -, h⟩ := Option.bind_eq_some_iff.mp h
      obtain ⟨_, -, h⟩ := Option.bind_eq_some_iff.mp h
      cases h
      exact trivial
    · cases h
  case h_3 v hv =>
    split at h
    · next loc tag left right hm =>
      obtain ⟨_, -, h⟩ := Option.bind_eq_some_iff.mp h
      obtain ⟨_, hop, h⟩ := Option.bind_eq_some_iff.mp h
      obtain ⟨_, ha, h⟩ := Option.bind_eq_some_iff.mp h
      obtain ⟨_, hb, h⟩ := Option.bind_eq_some_iff.mp h
      cases h
      exact ⟨v, loc, tag, left, right, Json.eq_of_variant? hv, hm,
        unit?_of_bind_ofTag? BinaryOp.tag_of_ofTag? hop, rfl, ha, hb⟩
    · cases h
  case h_4 v hv =>
    split at h
    · next loc tag operand hm =>
      obtain ⟨_, -, h⟩ := Option.bind_eq_some_iff.mp h
      obtain ⟨_, hop, h⟩ := Option.bind_eq_some_iff.mp h
      obtain ⟨_, ha, h⟩ := Option.bind_eq_some_iff.mp h
      cases h
      exact ⟨v, loc, tag, operand, Json.eq_of_variant? hv, hm,
        unit?_of_bind_ofTag? UnaryOp.tag_of_ofTag? hop, rfl, ha⟩
    · cases h
  case h_5 =>
    split at h
    · split at h
      · next items _ =>
        obtain ⟨_, -, h⟩ := Option.bind_eq_some_iff.mp h
        obtain ⟨_, hf, h⟩ := Option.bind_eq_some_iff.mp h
        obtain ⟨_, has, h⟩ := Option.bind_eq_some_iff.mp h
        cases h
        rw [Expr.ofJsons?_eq] at has
        exact ⟨⟨_, hf⟩, items, has⟩
      · cases h
    · cases h
  case h_7 =>
    split at h
    · obtain ⟨_, -, h⟩ := Option.bind_eq_some_iff.mp h
      obtain ⟨_, ha, h⟩ := Option.bind_eq_some_iff.mp h
      cases h
      exact ⟨_, ha⟩
    · cases h
  case h_8 => cases h

/-- the parts of a statement were read from some values -/
def Stmt.Made : Stmt → Prop
  | .function d => ∃ decl, FunctionDecl.ofJson? decl = some d
  | .class d => ∃ decl, ClassDecl.ofJson? decl = some d
  | .assign _ t v => (∃ target, Expr.ofJson? target = some t) ∧ ∃ value, Expr.ofJson? value = some v
  | .cond _ c t e => (∃ condition, Expr.ofJson? condition = some c) ∧
    (∃ thenBlock, Block.ofJson? thenBlock = some t) ∧ ∃ elseBlock, Block.ofJson? elseBlock = some e
  | .expr _ e => ∃ expression, Expr.ofJson? expression = some e
  | .dim _ | .optionExplicit _ | .exit .. => True

theorem Stmt.made {j : Json} {t : Stmt} (h : Stmt.ofJson? j = some t) : t.Made := by
  rw [Stmt.ofJson?] at h
  split at h
  case h_1 | h_2 =>
    obtain ⟨_, hd, rfl⟩ := Option.map_eq_some_iff.mp h
    exact ⟨_, hd⟩
  case h_3 =>
    obtain ⟨_, -, rfl⟩ := Option.map_eq_some_iff.mp h
    exact trivial
  case h_4 =>
    split at h
    · obtain ⟨_, -, h⟩ := Option.bind_eq_some_iff.mp h
      obtain ⟨_, ht, h⟩ := Option.bind_eq_some_iff.mp h
      obtain ⟨_, hv, h⟩ := Option.bind_eq_some_iff.mp h
      cases h
      exact ⟨⟨_, ht⟩, _, hv⟩
    · cases h
  case h_5 =>
    split at h
    · obtain ⟨_, -, h⟩ := Option.bind_eq_some_iff.mp h
      obtain ⟨_, hc, h⟩ := Option.bind_eq_some_iff.mp h
      obtain ⟨_, ht, h⟩ := Option.bind_eq_some_iff.mp h
      obtain ⟨_, he, h⟩ := Option.bind_eq_some_iff.mp h
      cases h
      exact ⟨⟨_, hc⟩, ⟨_, ht⟩, _, he⟩
    · cases h
  case h_6 =>
    split at h
    · obtain ⟨_, -, h⟩ := Option.bind_eq_some_iff.mp h
      obtain ⟨_, he, h⟩ := Option.bind_eq_some_iff.mp h
      cases h
      exact ⟨_, he⟩
    · cases h
  case h_7 =>
    split at h
    · obtain ⟨_, -, h⟩ := Option.bind_eq_some_iff.mp h
      cases h
      exact trivial
    · cases h
  case h_8 =>
    split at h
    · obtain ⟨_, -, h⟩ := Option.bind_eq_some_iff.mp h
      obtain ⟨_, -, h⟩ := Option.bind_eq_some_iff.mp h
      cases h
      exact trivial
    · cases h
  case h_9 => cases h

theorem Block.made {j : Json} {l : Location} {ss : List Stmt}
    (h : Block.ofJson? j = some ⟨l, ss⟩) :
    ∃ items : List Json, items.mapM Stmt.ofJson? = some ss := by
  rw [Block.ofJson?] at h
  split at h
  · split at h
    · next items _ =>
      obtain ⟨_, -, h⟩ := Option.bind_eq_some_iff.mp h
      obtain ⟨_, hss, h⟩ := Option.bind_eq_some_iff.mp h
      cases h
      rw [Stmt.ofJsons?_eq] at hss
      exact ⟨items, hss⟩
    · cases h
  · cases h

theorem FunctionDecl.made {j : Json} {l : Location} {k : FunctionKind} {n : String}
    {ps : List Param} {b : Block} (h : FunctionDecl.ofJson? j = some ⟨l, k, n, ps, b⟩) :
    ∃ body, Block.ofJson? body = some b := by
  rw [FunctionDecl.ofJson?] at h
  split at h
  · obtain ⟨_, -, h⟩ := Option.bind_eq_some_iff.mp h
    obtain ⟨_, -, h⟩ := Option.bind_eq_some_iff.mp h
    obtain ⟨_, -, h⟩ := Option.bind_eq_some_iff.mp h
    obtain ⟨_, -, h⟩ := Option.bind_eq_some_iff.mp h
    obtain ⟨_, hb, h⟩ := Option.bind_eq_some_iff.mp h
    cases h
    exact ⟨_, hb⟩
  · cases h

theorem ClassDecl.made {j : Json} {l : Location} {n : String} {fs : List Dim}
    {ms : List FunctionDecl} (h : ClassDecl.ofJson? j = some ⟨l, n, fs, ms⟩) :
    ∃ items : List Json, items.mapM FunctionDecl.ofJson? = some ms := by
  rw [ClassDecl.ofJson?] at h
  split at h
  · split at h
    · next items _ =>
      obtain ⟨_, -, h⟩ := Option.bind_eq_some_iff.mp h
      obtain ⟨_, -, h⟩ := Option.bind_eq_some_iff.mp h
      obtain ⟨_, -, h⟩ := Option.bind_eq_some_iff.mp h
      obtain ⟨_, hms, h⟩ := Option.bind_eq_some_iff.mp h
      cases h
      rw [FunctionDecl.ofJsons?_eq] at hms
      exact ⟨items, hms⟩
    · cases h
  · cases h

/-! ## what is read is captured -/

-- The induction is on the tree that comes out, whose parts were read themselves.
mutual
theorem Expr.captured_of_ofJson? :
    ∀ {t : Expr} {j : Json}, Expr.ofJson? j = some t → t.Captured
  | .literal .., _, _ | .path .., _, _ | .new .., _, _ => trivial
  | .binary .., _, h => by
    obtain ⟨_, _, _, _, _, -, -, -, hcombine, ha, hb⟩ := Expr.madeFrom h
    exact ⟨hcombine, Expr.captured_of_ofJson? ha, Expr.captured_of_ofJson? hb⟩
  | .unary .., _, h => by
    obtain ⟨_, _, _, _, -, -, -, hcombine, ha⟩ := Expr.madeFrom h
    exact ⟨hcombine, Expr.captured_of_ofJson? ha⟩
  | .call .., _, h => by
    obtain ⟨⟨_, hf⟩, _, has⟩ := Expr.madeFrom h
    exact ⟨Expr.captured_of_ofJson? hf, Expr.allCaptured_of_mapM has⟩
  | .paren _ a, _, h => by
    obtain ⟨_, ha⟩ := Expr.madeFrom h
    have hcaptured : a.Captured := Expr.captured_of_ofJson? ha
    exact hcaptured

theorem Expr.allCaptured_of_mapM :
    ∀ {ts : List Expr} {js : List Json}, js.mapM Expr.ofJson? = some ts → Expr.AllCaptured ts
  | [], _, _ => trivial
  | _ :: _, _, h => by
    obtain ⟨_, ht, _, hts⟩ := mapM_eq_some_cons h
    exact ⟨Expr.captured_of_ofJson? ht, Expr.allCaptured_of_mapM hts⟩
end

mutual
theorem Stmt.captured_of_ofJson? :
    ∀ {t : Stmt} {j : Json}, Stmt.ofJson? j = some t → t.Captured
  | .function d, _, h => by
    obtain ⟨_, hd⟩ := Stmt.made h
    exact FunctionDecl.captured_of_ofJson? hd
  | .class d, _, h => by
    obtain ⟨_, hd⟩ := Stmt.made h
    exact ClassDecl.captured_of_ofJson? hd
  | .dim _, _, _ | .optionExplicit _, _, _ | .exit .., _, _ => trivial
  | .assign .., _, h => by
    obtain ⟨⟨_, ht⟩, _, hv⟩ := Stmt.made h
    exact ⟨Expr.captured_of_ofJson? ht, Expr.captured_of_ofJson? hv⟩
  | .cond .., _, h => by
    obtain ⟨⟨_, hc⟩, ⟨_, ht⟩, _, he⟩ := Stmt.made h
    exact ⟨Expr.captured_of_ofJson? hc, Block.captured_of_ofJson? ht,
      Block.captured_of_ofJson? he⟩
  | .expr _ e, _, h => by
    obtain ⟨_, he⟩ := Stmt.made h
    exact Expr.captured_of_ofJson? he

theorem Stmt.allCaptured_of_mapM :
    ∀ {ts : List Stmt} {js : List Json}, js.mapM Stmt.ofJson? = some ts → Stmt.AllCaptured ts
  | [], _, _ => trivial
  | _ :: _, _, h => by
    obtain ⟨_, ht, _, hts⟩ := mapM_eq_some_cons h
    exact ⟨Stmt.captured_of_ofJson? ht, Stmt.allCaptured_of_mapM hts⟩

theorem Block.captured_of_ofJson? :
    ∀ {t : Block} {j : Json}, Block.ofJson? j = some t → t.Captured
  | ⟨_, ss⟩, _, h => by
    obtain ⟨_, hss⟩ := Block.made h
    exact Stmt.allCaptured_of_mapM hss

theorem FunctionDecl.captured_of_ofJson? :
    ∀ {t : FunctionDecl} {j : Json}, FunctionDecl.ofJson? j = some t → t.Captured
  | ⟨_, _, _, _, b⟩, _, h => by
    obtain ⟨_, hb⟩ := FunctionDecl.made h
    exact Block.captured_of_ofJson? hb

theorem FunctionDecl.allCaptured_of_mapM :
    ∀ {ts : List FunctionDecl} {js : List Json}, js.mapM FunctionDecl.ofJson? = some ts →
      FunctionDecl.AllCaptured ts
  | [], _, _ => trivial
  | _ :: _, _, h => by
    obtain ⟨_, ht, _, hts⟩ := mapM_eq_some_cons h
    exact ⟨FunctionDecl.captured_of_ofJson? ht, FunctionDecl.allCaptured_of_mapM hts⟩

theorem ClassDecl.captured_of_ofJson? :
    ∀ {t : ClassDecl} {j : Json}, ClassDecl.ofJson? j = some t → t.Captured
  | ⟨_, _, _, ms⟩, _, h => by
    obtain ⟨_, hms⟩ := ClassDecl.made h
    exact FunctionDecl.allCaptured_of_mapM hms
end

end Linked

end PageScript
