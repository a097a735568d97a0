import PageScript.Proofs.Program.Tokens
import PageScript.Proofs.Parser.Steps

/-!
# Reading operators

How the levels of an expression act on the tokens of an operator.  Reading on the levels of some
groups with a left operand at hand is a loop: it takes an operator and its right operand, and goes
on with the operation as the left operand (`levels_step`), until a token comes that is no operator
of these groups (`levels_of_stops`).
-/

namespace PageScript

/-! ## tokens behind an expression -/

/-- an operator of the group starts with this token -/
def OperatorGroup.takes (g : OperatorGroup) : TokenKind → Bool
  | .word w => (g.keyword? w).isSome
  | .symbol c => g.startsWith c
  | _ => false

/-- the token continues neither an operand nor an expression over these groups -/
def TokenKind.stops (groups : List OperatorGroup) (kind : TokenKind) : Bool :=
  kind != .symbol '(' && kind != .symbol '.' && groups.all fun g => !g.takes kind

/-- the stream goes on with a token that stops an expression over these groups -/
def TokenStream.Stops (groups : List OperatorGroup) (s : TokenStream) : Prop :=
  ∃ kind, s.front = some kind ∧ kind.stops groups = true

/-- an operand can start with this token -/
def TokenKind.startsOperand : TokenKind → Bool
  | .integer _ => true
  | .string _ => true
  | .word _ => true
  | .symbol c => c == '-' || c == '('
  | _ => false

theorem TokenStream.Stops.mono {gs gs' : List OperatorGroup} {s : TokenStream} (h : s.Stops gs)
    (hsub : gs' ⊆ gs) : s.Stops gs' := by
  obtain ⟨kind, hf, hk⟩ := h
  refine ⟨kind, hf, ?_⟩
  simp only [TokenKind.stops, Bool.and_eq_true, List.all_eq_true] at hk ⊢
  exact ⟨hk.1, fun g hg => hk.2 g (hsub hg)⟩

theorem TokenStream.Stops.drop {s : TokenStream} {n m : Nat} (h : s.Stops (precedence.drop n))
    (hnm : n ≤ m) : s.Stops (precedence.drop m) :=
  h.mono (List.drop_subset_drop_left precedence hnm)

namespace Parser

open TokenStream

variable {s s' : TokenStream}

/-! ## one operator -/

theorem groupSign_single {g : OperatorGroup} {sign : Char} {op : BinaryOp} {kind : TokenKind}
    (hop : g.symbol? (String.singleton sign) = some op)
    (hminus : g.symbol? (String.ofList [sign, '-']) = none)
    (hparen : g.symbol? (String.ofList [sign, '(']) = none)
    (hf : s.front = some kind) (hk : kind.startsOperand = true) :
    groupSign g sign s = .ok (op, s) := by
  obtain ⟨t, rfl, hp⟩ := peek_of_front hf
  unfold groupSign
  rw [bind_of_ok hp]
  cases ht : t.kind with
  | symbol other =>
    rw [ht] at hk
    simp only [TokenKind.startsOperand, Bool.or_eq_true, beq_iff_eq] at hk
    rcases hk with rfl | rfl
    · simp only [hminus, hop]
      rfl
    · simp only [hparen, hop]
      rfl
  | _ =>
    simp only [hop]
    rfl

theorem groupSign_double {g : OperatorGroup} {sign other : Char} {op : BinaryOp} {t : Token}
    (hop : g.symbol? (String.ofList [sign, other]) = some op) (ht : t.kind = .symbol other)
    (s : TokenStream) : groupSign g sign (s.report (.ok t)) = .ok (op, s) := by
  unfold groupSign
  rw [bind_of_ok (peek_report t s)]
  simp only [ht, hop]
  rfl

theorem groupOperator_word {g : OperatorGroup} {w : String} {op : BinaryOp} {t : Token}
    (hop : g.keyword? w = some op) (ht : t.kind = .word w) (s : TokenStream) :
    groupOperator g (s.report (.ok t)) = .ok (some (op, t.location), s) := by
  unfold groupOperator
  rw [bind_of_ok (peek_report t s)]
  simp only [ht, hop]
  rfl

theorem groupOperator_sign {g : OperatorGroup} {c : Char} {op : BinaryOp} {t : Token}
    (hg : g.startsWith c = true) (ht : t.kind = .symbol c) (hop : groupSign g c s = .ok (op, s')) :
    groupOperator g (s.report (.ok t)) = .ok (some (op, t.location), s') := by
  unfold groupOperator
  rw [bind_of_ok (peek_report t s)]
  simp only [ht, hg, if_true]
  rw [bind_of_ok (next_report t s), bind_of_ok hop]
  rfl

theorem groupOperator_of_not_takes {g : OperatorGroup} {kind : TokenKind}
    (hf : s.front = some kind) (hk : g.takes kind = false) :
    groupOperator g s = .ok (none, s) := by
  obtain ⟨t, rfl, hp⟩ := peek_of_front hf
  unfold groupOperator
  rw [bind_of_ok hp]
  cases h : t.kind with
  | word w =>
    rw [h] at hk
    simp only [OperatorGroup.takes, Option.isSome_eq_false_iff, Option.isNone_iff_eq_none] at hk
    simp only [hk]
    rfl
  | symbol c =>
    rw [h] at hk
    simp only [OperatorGroup.takes] at hk
    simp only [hk]
    rfl
  | _ => rfl

/-- how a group recognizes an operator: by a word, by one sign, or by two signs -/
def Recognizes (g : OperatorGroup) (op : BinaryOp) : Prop :=
  (g.keyword? op.symbol = some op ∧ op.tokens = [.word op.symbol])
  ∨ (∃ c, g.startsWith c = true ∧ g.symbol? (String.singleton c) = some op
      ∧ g.symbol? (String.ofList [c, '-']) = none ∧ g.symbol? (String.ofList [c, '(']) = none
      ∧ op.tokens = [.symbol c])
  ∨ (∃ c d, g.startsWith c = true ∧ g.symbol? (String.ofList [c, d]) = some op
      ∧ op.tokens = [.symbol c, .symbol d])

/-- the group of an operator stands in front of the tighter groups, and recognizes it -/
theorem drop_level (op : BinaryOp) :
    ∃ g, precedence.drop op.level = g :: precedence.drop (op.level + 1) ∧ Recognizes g op := by
  cases op with
  | xor => exact ⟨_, rfl, .inl (by decide)⟩
  | or => exact ⟨_, rfl, .inl (by decide)⟩
  | and => exact ⟨_, rfl, .inl (by decide)⟩
  | is => exact ⟨_, rfl, .inl (by decide)⟩
  | mod => exact ⟨_, rfl, .inl (by decide)⟩
  | notEq => exact ⟨_, rfl, .inr (.inr ⟨'<', '>', by decide⟩)⟩
  | lessEq => exact ⟨_, rfl, .inr (.inr ⟨'<', '=', by decide⟩)⟩
  | greaterEq => exact ⟨_, rfl, .inr (.inr ⟨'>', '=', by decide⟩)⟩
  | eq => exact ⟨_, rfl, .inr (.inl ⟨'=', by decide⟩)⟩
  | less => exact ⟨_, rfl, .inr (.inl ⟨'<', by decide⟩)⟩
  | greater => exact ⟨_, rfl, .inr (.inl ⟨'>', by decide⟩)⟩
  | concat => exact ⟨_, rfl, .inr (.inl ⟨'&', by decide⟩)⟩
  | add => exact ⟨_, rfl, .inr (.inl ⟨'+', by decide⟩)⟩
  | sub => exact ⟨_, rfl, .inr (.inl ⟨'-', by decide⟩)⟩
  | intDiv => exact ⟨_, rfl, .inr (.inl ⟨'\\', by decide⟩)⟩
  | mul => exact ⟨_, rfl, .inr (.inl ⟨'*', by decide⟩)⟩
  | div => exact ⟨_, rfl, .inr (.inl ⟨'/', by decide⟩)⟩
  | pow => exact ⟨_, rfl, .inr (.inl ⟨'^', by decide⟩)⟩

/-- a word, or one sign that no operand can make two of, or two signs -/
theorem groupOperator_tokens (op : BinaryOp) {g : OperatorGroup}
    (hg : precedence.drop op.level = g :: precedence.drop (op.level + 1)) {ts : List Token}
    (hts : ts.map Token.kind = op.tokens) {kind : TokenKind} (hf : s.front = some kind)
    (hk : kind.startsOperand = true) :
    ∃ loc, groupOperator g (ahead ts s) = .ok (some (op, loc), s) := by
  obtain ⟨g', hg', hspell⟩ := drop_level op
  obtain rfl : g = g' := (List.cons.inj (hg.symm.trans hg')).1
  rcases hspell with ⟨hw, htok⟩ | ⟨c, hs, hop, hm, hp, htok⟩ | ⟨c, d, hs, hop, htok⟩
  · rw [htok] at hts
    obtain ⟨t, rfl, ht⟩ := List.map_eq_singleton_iff.mp hts
    exact ⟨t.location, groupOperator_word hw ht s⟩
  · rw [htok] at hts
    obtain ⟨t, rfl, ht⟩ := List.map_eq_singleton_iff.mp hts
    exact ⟨t.location, groupOperator_sign hs ht (groupSign_single hop hm hp hf hk)⟩
  · rw [htok] at hts
    obtain ⟨t, us, rfl, ht, hus⟩ := List.map_eq_cons_iff.mp hts
    obtain ⟨u, rfl, hu⟩ := List.map_eq_singleton_iff.mp hus
    exact ⟨t.location, groupOperator_sign hs ht (groupSign_double hop hu s)⟩

/-- an operator starts with a token that no tighter group takes -/
theorem stops_of_tokens (op : BinaryOp) {kind : TokenKind} {ks : List TokenKind}
    (h : op.tokens = kind :: ks) : kind.stops (precedence.drop (op.level + 1)) = true := by
  have hstops : ∀ k ∈ op.tokens.head?, k.stops (precedence.drop (op.level + 1)) = true := by
    cases op <;> decide
  exact hstops kind (by rw [h]; rfl)

theorem op_level_lt (op : BinaryOp) : op.level < precedence.length := by
  cases op <;> decide

theorem tokens_ne_nil (op : BinaryOp) : op.tokens ≠ [] := by
  cases op <;> decide

theorem stops_ahead_tokens (op : BinaryOp) {ts : List Token} (hts : ts.map Token.kind = op.tokens)
    (s : TokenStream) : (ahead ts s).Stops (precedence.drop (op.level + 1)) := by
  cases ts with
  | nil => exact absurd hts.symm (tokens_ne_nil op)
  | cons t ts => exact ⟨t.kind, rfl, stops_of_tokens op hts.symm⟩

/-! ## levels -/

variable {o first : Parser Expr} {e l r : Expr} {s1 s2 : TokenStream}

theorem levels_cons (g : OperatorGroup) (gs : List OperatorGroup) (first o : Parser Expr) :
    levels (g :: gs) first o = (levels gs first o >>= fun left =>
      collect (groupTail g (levels gs o o)) >>= fun tails =>
        pure (leftAssociated left tails)) := rfl

/-- the leftmost operand may be read before everything else -/
theorem levels_first (h : first s = .ok (e, s')) (gs : List OperatorGroup) :
    levels gs first o s = levels gs (pure e) o s' := by
  induction gs with
  | nil => exact h
  | cons g gs ih =>
    rw [levels_cons, levels_cons]
    exact bind_congr_left ih

theorem groupTail_of_not_takes {g : OperatorGroup} {kind : TokenKind}
    (hf : s.front = some kind) (hk : g.takes kind = false) :
    groupTail g o s = .ok (none, s) := by
  rw [groupTail, lift_bind_of_ok (groupOperator_of_not_takes hf hk)]
  rfl

/-- where no operator of the groups comes, the operand is all -/
theorem levels_of_not_takes {gs : List OperatorGroup} {kind : TokenKind} (hf : s.front = some kind)
    (hk : ∀ g ∈ gs, g.takes kind = false) (e : Expr) : levels gs (pure e) o s = .ok (e, s) := by
  induction gs with
  | nil => rfl
  | cons g gs ih =>
    obtain ⟨hg, hgs⟩ := List.forall_mem_cons.mp hk
    rw [levels_cons, bind_of_ok (ih hgs),
      bind_of_ok (collect_of_none (groupTail_of_not_takes hf hg))]
    rfl

theorem levels_of_stops {gs : List OperatorGroup} (h : s.Stops gs) (e : Expr) :
    levels gs (pure e) o s = .ok (e, s) := by
  obtain ⟨kind, hf, hk⟩ := h
  refine levels_of_not_takes hf ?_ e
  simp only [TokenKind.stops, Bool.and_eq_true, List.all_eq_true, Bool.not_eq_true'] at hk
  exact hk.2

/-- an operator of the loosest group takes its right operand from the tighter groups -/
theorem levels_cons_step {g : OperatorGroup} {gs : List OperatorGroup} {op : BinaryOp}
    {loc : Location} (hop : groupOperator g s = .ok (some (op, loc), s1)) (hs : s.Stops gs)
    (hr : levels gs o o s1 = .ok (r, s2)) (hs2 : s2.Stops gs) (hsize : s2.size < s.size) :
    levels (g :: gs) (pure l) o s = levels (g :: gs) (pure (.binary loc op l r)) o s2 := by
  have htail : groupTail g (levels gs o o) s = .ok (some (op, loc, r), s2) := by
    rw [groupTail, lift_bind_of_ok hop]
    show (levels gs o o >>= fun r => pure (some (op, loc, r))) s1 = _
    rw [bind_of_ok hr]
    rfl
  rw [levels_cons, levels_cons, bind_of_ok (levels_of_stops hs l),
    bind_of_ok (levels_of_stops hs2 _)]
  exact collect_bind_of_some htail hsize

/-- **One turn of the loop.**  The right operand of an operator is read on the levels of the
tighter groups, and the operation becomes the left operand. -/
theorem levels_step {n : Nat} {op : BinaryOp} (hn : n ≤ op.level) {ts : List Token}
    (hts : ts.map Token.kind = op.tokens) {kind : TokenKind} (hf : s1.front = some kind)
    (hk : kind.startsOperand = true)
    (hr : levels (precedence.drop (op.level + 1)) o o s1 = .ok (r, s2))
    (hs2 : s2.Stops (precedence.drop (op.level + 1))) (hsize : s2.size ≤ s1.size) :
    ∃ loc, ∀ l, levels (precedence.drop n) (pure l) o (ahead ts s1)
      = levels (precedence.drop n) (pure (.binary loc op l r)) o s2 := by
  obtain ⟨g, hg, -⟩ := drop_level op
  obtain ⟨loc, hop⟩ := groupOperator_tokens op hg hts hf hk
  refine ⟨loc, fun l => ?_⟩
  have hlt : s2.size < (ahead ts s1).size := by
    have : ts ≠ [] := fun h => tokens_ne_nil op (by rw [← hts, h]; rfl)
    have := List.length_pos_iff.mpr this
    rw [size_ahead]
    omega
  induction hd : op.level - n generalizing n with
  | zero =>
    obtain rfl : n = op.level := by omega
    rw [hg]
    exact levels_cons_step hop (stops_ahead_tokens op hts s1) hr hs2 hlt
  | succ d ih =>
    -- the looser groups in between hand the stream on as it is
    have hlen : n < precedence.length := by
      have := op_level_lt op
      omega
    rw [List.drop_eq_getElem_cons hlen, levels_cons, levels_cons]
    exact bind_congr_left (ih (by omega) (by omega))

end Parser

end PageScript
