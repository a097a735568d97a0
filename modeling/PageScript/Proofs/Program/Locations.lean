import PageScript.Proofs.Program.Alike

/-!
# The locations of a tree

Every node has a location: blocks, statements, declarations with their parameters and fields, and
expressions.  Trees that are alike have as many, and they correspond one by one.

* `Expr.locations`, `Block.locations`   the locations of all nodes, outer ones first;
* `Block.Alike.locations`               those of trees that are alike correspond;
* `Block.alike_of_locations`            a tree is like itself where its locations correspond to
                                        themselves.
-/

namespace PageScript

/-! ## expressions -/

mutual
def Expr.locations : Expr → List Location
  | .literal l _ => [l]
  | .path l _ => [l]
  | .binary l _ a b => l :: (a.locations ++ b.locations)
  | .unary l _ a => l :: a.locations
  | .call l f as => l :: (f.locations ++ Expr.allLocations as)
  | .new l _ => [l]
  | .paren l a => l :: a.locations

def Expr.allLocations : List Expr → List Location
  | [] => []
  | e :: es => e.locations ++ Expr.allLocations es
end

/-! ## statements -/

mutual
def Stmt.locations : Stmt → List Location
  | .function d => d.locations
  | .class d => d.locations
  | .dim d => [d.loc]
  | .assign l t v => l :: (t.locations ++ v.locations)
  | .cond l c t e => l :: (c.locations ++ (t.locations ++ e.locations))
  | .expr l e => l :: e.locations
  | .optionExplicit l => [l]
  | .exit l _ => [l]

def Stmt.allLocations : List Stmt → List Location
  | [] => []
  | s :: ss => s.locations ++ Stmt.allLocations ss

def Block.locations : Block → List Location
  | ⟨l, ss⟩ => l :: Stmt.allLocations ss

def FunctionDecl.locations : FunctionDecl → List Location
  | ⟨l, _, _, ps, b⟩ => l :: (ps.map Param.loc ++ b.locations)

def FunctionDecl.allLocations : List FunctionDecl → List Location
  | [] => []
  | d :: ds => d.locations ++ FunctionDecl.allLocations ds

def ClassDecl.locations : ClassDecl → List Location
  | ⟨l, _, fs, ms⟩ => l :: (fs.map Dim.loc ++ FunctionDecl.allLocations ms)
end

variable {k : Likeness}

/-! ## trees that are alike -/

mutual
theorem Expr.Alike.locations :
    ∀ {e e' : Expr}, e.Alike k e' → List.Forall₂ k.locs e.locations e'.locations
  | _, _, .literal hl => .cons hl .nil
  | _, _, .path hl _ => .cons hl .nil
  | _, _, .binary hl ha hb => .cons hl (List.rel_append ha.locations hb.locations)
  | _, _, .unary hl ha => .cons hl ha.locations
  | _, _, .call hl hf has => .cons hl (List.rel_append hf.locations has.locations)
  | _, _, .new hl _ => .cons hl .nil
  | _, _, .paren hl ha => .cons hl ha.locations

theorem Expr.AllAlike.locations : ∀ {es es' : List Expr}, Expr.AllAlike k es es' →
    List.Forall₂ k.locs (Expr.allLocations es) (Expr.allLocations es')
  | _, _, .nil => .nil
  | _, _, .cons he hes => List.rel_append he.locations hes.locations
end

mutual
theorem Stmt.Alike.locations :
    ∀ {s s' : Stmt}, s.Alike k s' → List.Forall₂ k.locs s.locations s'.locations
  | _, _, .function hd => hd.locations
  | _, _, .class hd => hd.locations
  | _, _, .dim hd => .cons hd.loc .nil
  | _, _, .assign hl ht hv => .cons hl (List.rel_append ht.locations hv.locations)
  | _, _, .cond hl hc ht he =>
    .cons hl (List.rel_append hc.locations (List.rel_append ht.locations he.locations))
  | _, _, .expr hl he => .cons hl he.locations
  | _, _, .optionExplicit hl => .cons hl .nil
  | _, _, .exit hl => .cons hl .nil

theorem Stmt.AllAlike.locations : ∀ {ss ss' : List Stmt}, Stmt.AllAlike k ss ss' →
    List.Forall₂ k.locs (Stmt.allLocations ss) (Stmt.allLocations ss')
  | _, _, .nil => .nil
  | _, _, .cons hs hss => List.rel_append hs.locations hss.locations

theorem Block.Alike.locations :
    ∀ {b b' : Block}, b.Alike k b' → List.Forall₂ k.locs b.locations b'.locations
  | _, _, .mk hl hss => .cons hl hss.locations

theorem FunctionDecl.Alike.locations :
    ∀ {d d' : FunctionDecl}, d.Alike k d' → List.Forall₂ k.locs d.locations d'.locations
  | _, _, .mk hl _ hps hb =>
    .cons hl (List.rel_append (List.rel_map (fun _ _ hp => hp.loc) hps) hb.locations)

theorem FunctionDecl.AllAlike.locations :
    ∀ {ds ds' : List FunctionDecl}, FunctionDecl.AllAlike k ds ds' →
      List.Forall₂ k.locs (FunctionDecl.allLocations ds) (FunctionDecl.allLocations ds')
  | _, _, .nil => .nil
  | _, _, .cons hd hds => List.rel_append hd.locations hds.locations

theorem ClassDecl.Alike.locations :
    ∀ {d d' : ClassDecl}, d.Alike k d' → List.Forall₂ k.locs d.locations d'.locations
  | _, _, .mk hl _ hfs hms =>
    .cons hl (List.rel_append (List.rel_map (fun _ _ hd => hd.loc) hfs) hms.locations)
end

/-! ## a tree is like itself -/

theorem forall_mem_cons_append {P : Location → Prop} {l : Location} {ls ls' : List Location} :
    (∀ x ∈ l :: (ls ++ ls'), P x) ↔ P l ∧ (∀ x ∈ ls, P x) ∧ ∀ x ∈ ls', P x := by
  rw [List.forall_mem_cons, List.forall_mem_append]

mutual
theorem Expr.alike_of_locations :
    ∀ {e : Expr}, (∀ l ∈ e.locations, k.locs l l) → e.Alike k e
  | .literal l _, h => .literal (h l List.mem_cons_self)
  | .path l ns, h =>
    .path (h l List.mem_cons_self) (List.forall₂_same.mpr fun n _ => k.names_refl n)
  | .binary _ _ a b, h => by
    obtain ⟨hl, ha, hb⟩ := forall_mem_cons_append.mp h
    exact .binary hl (Expr.alike_of_locations ha) (Expr.alike_of_locations hb)
  | .unary _ _ a, h => by
    obtain ⟨hl, ha⟩ := List.forall_mem_cons.mp h
    exact .unary hl (Expr.alike_of_locations ha)
  | .call _ f as, h => by
    obtain ⟨hl, hf, has⟩ := forall_mem_cons_append.mp h
    exact .call hl (Expr.alike_of_locations hf) (Expr.allAlike_of_locations has)
  | .new l c, h => .new (h l List.mem_cons_self) (k.names_refl c)
  | .paren _ a, h => by
    obtain ⟨hl, ha⟩ := List.forall_mem_cons.mp h
    exact .paren hl (Expr.alike_of_locations ha)

theorem Expr.allAlike_of_locations :
    ∀ {es : List Expr}, (∀ l ∈ Expr.allLocations es, k.locs l l) → Expr.AllAlike k es es
  | [], _ => .nil
  | e :: es, h => by
    obtain ⟨he, hes⟩ := List.forall_mem_append.mp h
    exact .cons (Expr.alike_of_locations he) (Expr.allAlike_of_locations hes)
end

theorem params_alike_of_locations {ps : List Param} (h : ∀ l ∈ ps.map Param.loc, k.locs l l) :
    List.Forall₂ (Param.Alike k) ps ps :=
  List.forall₂_same.mpr fun p hp =>
    ⟨h p.loc (List.mem_map_of_mem hp), k.names_refl p.name, rfl⟩

theorem dims_alike_of_locations {ds : List Dim} (h : ∀ l ∈ ds.map Dim.loc, k.locs l l) :
    List.Forall₂ (Dim.Alike k) ds ds :=
  List.forall₂_same.mpr fun d hd => ⟨h d.loc (List.mem_map_of_mem hd), k.names_refl d.name⟩

mutual
theorem Stmt.alike_of_locations :
    ∀ {s : Stmt}, (∀ l ∈ s.locations, k.locs l l) → s.Alike k s
  | .function d, h => .function (FunctionDecl.alike_of_locations h)
  | .class d, h => .class (ClassDecl.alike_of_locations h)
  | .dim d, h => .dim ⟨h d.loc List.mem_cons_self, k.names_refl d.name⟩
  | .assign _ t v, h => by
    obtain ⟨hl, ht, hv⟩ := forall_mem_cons_append.mp h
    exact .assign hl (Expr.alike_of_locations ht) (Expr.alike_of_locations hv)
  | .cond _ c t e, h => by
    obtain ⟨hl, hc, hte⟩ := forall_mem_cons_append.mp h
    obtain ⟨ht, he⟩ := List.forall_mem_append.mp hte
    exact .cond hl (Expr.alike_of_locations hc) (Block.alike_of_locations ht)
      (Block.alike_of_locations he)
  | .expr _ e, h => by
    obtain ⟨hl, he⟩ := List.forall_mem_cons.mp h
    exact .expr hl (Expr.alike_of_locations he)
  | .optionExplicit l, h => .optionExplicit (h l List.mem_cons_self)
  | .exit l _, h => .exit (h l List.mem_cons_self)

theorem Stmt.allAlike_of_locations :
    ∀ {ss : List Stmt}, (∀ l ∈ Stmt.allLocations ss, k.locs l l) → Stmt.AllAlike k ss ss
  | [], _ => .nil
  | s :: ss, h => by
    obtain ⟨hs, hss⟩ := List.forall_mem_append.mp h
    exact .cons (Stmt.alike_of_locations hs) (Stmt.allAlike_of_locations hss)

theorem Block.alike_of_locations :
    ∀ {b : Block}, (∀ l ∈ b.locations, k.locs l l) → b.Alike k b
  | ⟨_, ss⟩, h => by
    obtain ⟨hl, hss⟩ := List.forall_mem_cons.mp h
    exact .mk hl (Stmt.allAlike_of_locations hss)

theorem FunctionDecl.alike_of_locations :
    ∀ {d : FunctionDecl}, (∀ l ∈ d.locations, k.locs l l) → d.Alike k d
  | ⟨_, _, n, ps, b⟩, h => by
    obtain ⟨hl, hps, hb⟩ := forall_mem_cons_append.mp h
    exact .mk hl (k.names_refl n) (params_alike_of_locations hps) (Block.alike_of_locations hb)

theorem FunctionDecl.allAlike_of_locations :
    ∀ {ds : List FunctionDecl}, (∀ l ∈ FunctionDecl.allLocations ds, k.locs l l) →
      FunctionDecl.AllAlike k ds ds
  | [], _ => .nil
  | d :: ds, h => by
    obtain ⟨hd, hds⟩ := List.forall_mem_append.mp h
    exact .cons (FunctionDecl.alike_of_locations hd) (FunctionDecl.allAlike_of_locations hds)

theorem ClassDecl.alike_of_locations :
    ∀ {d : ClassDecl}, (∀ l ∈ d.locations, k.locs l l) → d.Alike k d
  | ⟨_, n, fs, ms⟩, h => by
    obtain ⟨hl, hfs, hms⟩ := forall_mem_cons_append.mp h
    exact .mk hl (k.names_refl n) (dims_alike_of_locations hfs)
      (FunctionDecl.allAlike_of_locations hms)
end

end PageScript
