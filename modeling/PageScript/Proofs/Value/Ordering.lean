import Mathlib.Data.String.Basic
import Mathlib.Data.Sum.Order
import Mathlib.Order.Compare
import PageScript.Value.Operation

/-!
# The order of values

A comparison looks at nothing but the ranks of its two operands.  A number ranks by its integer, a
string by its code points, and every number ranks below every string.  The empty value is the one
whose rank depends on its neighbour: beside a string it ranks as the empty string, beside anything
else as zero.  So the comparisons of two values always agree with each other, but `0 = Empty`,
`Empty = ""` and `0 < ""`: where three values are compared, the empty value is left out.

* `codePoints_strictMono`   strings are ordered as the lists of their code points;
* `order_compares`          the order of two values is the order of their ranks;
* `holds_iff`               a comparison holds if the ranks are related as its sign says;
* `rankBeside_of_isOrdered` a value other than the empty one has one rank beside all others.

Main statement: `Value.comparisons_consistent`.
-/

namespace PageScript

/-! ## ranks -/

/-- the code points of a string, in order -/
def Text.codePoints (s : String) : List Nat := s.toList.map Char.toNat

theorem Text.lex_map_toNat {a b : List Char} (h : List.Lex (· < ·) a b) :
    List.Lex (· < ·) (a.map Char.toNat) (b.map Char.toNat) := by
  induction h with
  | nil => exact .nil
  | cons _ ih => exact .cons ih
  | rel hlt => exact .rel hlt

theorem Text.codePoints_strictMono : StrictMono codePoints :=
  fun _ _ h => lex_map_toNat (String.lt_iff_toList_lt.mp h)

/-- a place in the order of values: the numbers, and above all of them the strings -/
abbrev Rank := Lex (Int ⊕ List Nat)

namespace Value

/-- where a value stands; what refers to something else has no place of its own -/
def rank : Value → Rank
  | .integer n => Sum.inlₗ n.toInt
  | .boolean b => Sum.inlₗ (if b then -1 else 0)
  | .string s => Sum.inrₗ (Text.codePoints s)
  | .empty | .object _ | .function _ => Sum.inlₗ 0

/-- where a value stands when it is compared with another one -/
def rankBeside (v other : Value) : Rank :=
  match v, other with
  | .empty, .string _ => Sum.inrₗ []
  | v, _ => v.rank

/-- an integer, a truth value or a string: what is left without references and the empty value -/
def isOrdered : Value → Bool
  | .integer _ | .boolean _ | .string _ => true
  | .empty | .object _ | .function _ => false

/-- an integer or a truth value -/
def isNumber : Value → Bool
  | .integer _ | .boolean _ => true
  | .empty | .string _ | .object _ | .function _ => false

variable {v w : Value}

theorem isReference_of_isOrdered (h : v.isOrdered = true) : v.isReference = false := by
  cases v with
  | integer | boolean | string => rfl
  | empty | object | function => cases h

theorem isOrdered_of_isNumber (h : v.isNumber = true) : v.isOrdered = true := by
  cases v with
  | integer | boolean => rfl
  | empty | string | object | function => cases h

theorem rankBeside_of_isOrdered (h : v.isOrdered = true) (w : Value) : v.rankBeside w = v.rank := by
  cases v with
  | integer | boolean | string => rfl
  | empty | object | function => cases h

/-! ## two values in order -/

/-- beside a string that is not one, every value counts as an integer, which is its rank -/
theorem exists_integer (hv : v.isReference = false) (hs : v.type ≠ .string) :
    ∃ n : Int64, v.toInteger? = some n ∧ v.rank = Sum.inlₗ n.toInt := by
  cases v with
  | empty => exact ⟨0, rfl, rfl⟩
  | integer n => exact ⟨n, rfl, rfl⟩
  | boolean b =>
    cases b with
    | true => exact ⟨-1, rfl, rfl⟩
    | false => exact ⟨0, rfl, rfl⟩
  | string s => exact absurd rfl hs
  | object | function => cases hv

theorem compares_compareText (a b : String) :
    (compareText a b).Compares (Sum.inrₗ (Text.codePoints a) : Rank)
      (Sum.inrₗ (Text.codePoints b)) := by
  have hmono : ∀ {s t : String}, s < t →
      (Sum.inrₗ (Text.codePoints s) : Rank) < Sum.inrₗ (Text.codePoints t) :=
    fun h => Sum.Lex.inr_strictMono (Text.codePoints_strictMono h)
  rcases lt_trichotomy a b with h | rfl | h
  · rw [compareText, if_pos h]
    exact hmono h
  · rw [compareText, if_neg (lt_irrefl a), if_pos rfl]
    rfl
  · rw [compareText, if_neg h.not_gt, if_neg h.ne']
    exact hmono h

theorem compares_compare (a b : Int) :
    (compare a b).Compares (Sum.inlₗ a : Rank) (Sum.inlₗ b) := by
  rcases lt_trichotomy a b with h | rfl | h
  · rw [compare_lt_iff_lt.mpr h]
    exact Sum.Lex.inl_strictMono h
  · rw [compare_eq_iff_eq.mpr rfl]
    rfl
  · rw [compare_gt_iff_gt.mpr h]
    exact Sum.Lex.inl_strictMono h

theorem order_of_numbers (op : BinaryOp) (hv : v.isReference = false) (hvs : v.type ≠ .string)
    (hw : w.isReference = false) (hws : w.type ≠ .string) :
    ∃ o, order op v w = .ok o ∧ o.Compares v.rank w.rank := by
  obtain ⟨a, ha, hva⟩ := exists_integer hv hvs
  obtain ⟨b, hb, hwb⟩ := exists_integer hw hws
  have hintegers : integers op v w = .ok (a.toInt, b.toInt) := by rw [integers, ha, hb]
  refine ⟨compare a.toInt b.toInt, ?_, hva ▸ hwb ▸ compares_compare a.toInt b.toInt⟩
  have horder : order op v w = (integers op v w).bind fun p => .ok (compare p.1 p.2) := by
    cases v with
    | string => exact absurd rfl hvs
    | object | function => cases hv
    | empty | integer | boolean =>
      cases w with
      | string => exact absurd rfl hws
      | object | function => cases hw
      | empty | integer | boolean => rfl
  rw [horder, hintegers]
  rfl

/-- **Values are in the order of their ranks.** -/
theorem order_compares (op : BinaryOp) (hv : v.isReference = false) (hw : w.isReference = false) :
    ∃ o, order op v w = .ok o ∧ o.Compares (v.rankBeside w) (w.rankBeside v) := by
  cases v with
  | object | function => cases hv
  | string s =>
    cases w with
    | object | function => cases hw
    | string t => exact ⟨_, rfl, compares_compareText s t⟩
    | empty => exact ⟨_, rfl, compares_compareText s ""⟩
    | integer | boolean => exact ⟨.gt, rfl, Sum.Lex.inl_lt_inr _ _⟩
  | empty =>
    cases w with
    | object | function => cases hw
    | string t => exact ⟨_, rfl, compares_compareText "" t⟩
    | empty | integer | boolean => exact order_of_numbers op rfl nofun rfl nofun
  | integer | boolean =>
    cases w with
    | object | function => cases hw
    | string t => exact ⟨.lt, rfl, Sum.Lex.inl_lt_inr _ _⟩
    | empty | integer | boolean => exact order_of_numbers op rfl nofun rfl nofun

theorem order_of_isReference (op : BinaryOp) (h : (v.isReference || w.isReference) = true) :
    order op v w = .error (.typeMismatch op v.type w.type) := if_pos h

end Value

/-! ## comparisons -/

namespace BinaryOp

/-- the six operators that compare their operands by order -/
def isComparison : BinaryOp → Bool
  | .eq | .notEq | .less | .greater | .lessEq | .greaterEq => true
  | _ => false

/-- the outcomes of a comparison that a sign stands for -/
def accepts : BinaryOp → Ordering → Bool
  | .eq => Ordering.isEq
  | .notEq => Ordering.isNe
  | .less => Ordering.isLT
  | .greater => Ordering.isGT
  | .lessEq => Ordering.isLE
  | .greaterEq => Ordering.isGE
  | _ => fun _ => false

/-- the relation that a sign stands for -/
def Relates {α : Type} [LE α] [LT α] : BinaryOp → α → α → Prop
  | .eq, a, b => a = b
  | .notEq, a, b => a ≠ b
  | .less, a, b => a < b
  | .greater, a, b => b < a
  | .lessEq, a, b => a ≤ b
  | .greaterEq, a, b => b ≤ a
  | _, _, _ => False

/-- a comparison of two values is true -/
def Holds (op : BinaryOp) (v w : Value) : Prop := op.apply v w = .ok (.boolean true)

variable {op : BinaryOp} {v w : Value}

theorem apply_of_isComparison (h : op.isComparison = true) (v w : Value) :
    op.apply v w = Value.comparison op op.accepts v w := by
  cases op with
  | eq | notEq | less | greater | lessEq | greaterEq => rfl
  | _ => cases h

theorem accepts_iff {α : Type} [LinearOrder α] {o : Ordering} {a b : α}
    (hop : op.isComparison = true) (h : o.Compares a b) : op.accepts o = true ↔ op.Relates a b := by
  cases op with
  | eq => exact Ordering.isEq_iff_eq_eq.trans h.eq_eq
  | notEq => exact Ordering.isNe_iff_ne_eq.trans (not_congr h.eq_eq)
  | less => exact Ordering.isLT_iff_eq_lt.trans h.eq_lt
  | greater => exact Ordering.isGT_iff_eq_gt.trans h.eq_gt
  | lessEq => exact Ordering.isLE_iff_ne_gt.trans h.ne_gt
  | greaterEq => exact Ordering.isGE_iff_ne_lt.trans h.ne_lt
  | _ => cases hop

/-- a comparison of values that are not references gives a truth value, and it is what the ranks
of the operands say -/
theorem exists_apply (hop : op.isComparison = true) (hv : v.isReference = false)
    (hw : w.isReference = false) :
    ∃ b, op.apply v w = .ok (.boolean b) ∧
      (b = true ↔ op.Relates (v.rankBeside w) (w.rankBeside v)) := by
  obtain ⟨o, ho, hcompares⟩ := Value.order_compares op hv hw
  refine ⟨op.accepts o, ?_, accepts_iff hop hcompares⟩
  rw [apply_of_isComparison hop, Value.comparison, ho]
  rfl

theorem holds_iff (hop : op.isComparison = true) (hv : v.isReference = false)
    (hw : w.isReference = false) :
    op.Holds v w ↔ op.Relates (v.rankBeside w) (w.rankBeside v) := by
  obtain ⟨b, hb, hrelates⟩ := exists_apply hop hv hw
  rw [← hrelates, Holds, hb, Except.ok.injEq, Value.boolean.injEq]

theorem holds_iff_rank (hop : op.isComparison = true) (hv : v.isOrdered = true)
    (hw : w.isOrdered = true) : op.Holds v w ↔ op.Relates v.rank w.rank := by
  rw [holds_iff hop (Value.isReference_of_isOrdered hv) (Value.isReference_of_isOrdered hw),
    Value.rankBeside_of_isOrdered hv, Value.rankBeside_of_isOrdered hw]

theorem apply_of_isReference (hop : op.isComparison = true)
    (h : (v.isReference || w.isReference) = true) :
    op.apply v w = .error (.typeMismatch op v.type w.type) := by
  rw [apply_of_isComparison hop, Value.comparison, Value.order_of_isReference op h]
  rfl

end BinaryOp

namespace Value

/-! ## consistency -/

/-- the six comparisons of two values are defined and speak of one order -/
structure Consistent (v w : Value) : Prop where
  defined : ∀ op : BinaryOp, op.isComparison = true → ∃ b, op.apply v w = .ok (.boolean b)
  one : BinaryOp.less.Holds v w ∨ BinaryOp.eq.Holds v w ∨ BinaryOp.greater.Holds v w
  less_alone : BinaryOp.less.Holds v w →
    ¬ BinaryOp.eq.Holds v w ∧ ¬ BinaryOp.greater.Holds v w
  equal_alone : BinaryOp.eq.Holds v w → ¬ BinaryOp.greater.Holds v w
  lessEq_iff : BinaryOp.lessEq.Holds v w ↔ BinaryOp.less.Holds v w ∨ BinaryOp.eq.Holds v w
  greaterEq_iff : BinaryOp.greaterEq.Holds v w ↔ BinaryOp.greater.Holds v w ∨ BinaryOp.eq.Holds v w
  notEq_iff : BinaryOp.notEq.Holds v w ↔ ¬ BinaryOp.eq.Holds v w
  greater_iff : BinaryOp.greater.Holds v w ↔ BinaryOp.less.Holds w v

theorem consistent {v w : Value} (hv : v.isReference = false) (hw : w.isReference = false) :
    Consistent v w := by
  have hrelates : ∀ op : BinaryOp, op.isComparison = true →
      (op.Holds v w ↔ op.Relates (v.rankBeside w) (w.rankBeside v)) :=
    fun op hop => BinaryOp.holds_iff hop hv hw
  have hless := hrelates .less rfl
  have heq := hrelates .eq rfl
  have hgreater := hrelates .greater rfl
  have hlessEq := hrelates .lessEq rfl
  have hgreaterEq := hrelates .greaterEq rfl
  have hnotEq := hrelates .notEq rfl
  have hflipped : BinaryOp.less.Holds w v ↔ w.rankBeside v < v.rankBeside w :=
    BinaryOp.holds_iff rfl hw hv
  exact {
    defined := fun op hop => by
      obtain ⟨b, hb, -⟩ := BinaryOp.exists_apply hop hv hw
      exact ⟨b, hb⟩
    one := by
      rw [hless, heq, hgreater]
      exact lt_trichotomy _ _
    less_alone := by
      rw [hless, heq, hgreater]
      exact fun h => ⟨h.ne, h.not_gt⟩
    equal_alone := by
      rw [heq, hgreater]
      exact fun h => h.not_gt
    lessEq_iff := by
      rw [hless, heq, hlessEq]
      exact le_iff_lt_or_eq
    greaterEq_iff := by
      rw [hgreater, heq, hgreaterEq]
      exact le_iff_lt_or_eq.trans (or_congr_right eq_comm)
    notEq_iff := by
      rw [hnotEq, heq]
      exact Iff.rfl
    greater_iff := hgreater.trans hflipped.symm }

/-! ## the order of numbers and strings -/

/-- the values that one order compares: all but references and the empty value -/
abbrev Ordered := {v : Value // v.isOrdered = true}

namespace Ordered

theorem lessEq_iff (v w : Ordered) : BinaryOp.lessEq.Holds v w ↔ v.1.rank ≤ w.1.rank :=
  BinaryOp.holds_iff_rank rfl v.2 w.2

theorem eq_iff (v w : Ordered) : BinaryOp.eq.Holds v w ↔ v.1.rank = w.1.rank :=
  BinaryOp.holds_iff_rank rfl v.2 w.2

theorem lessEq_trans {u v w : Ordered} (huv : BinaryOp.lessEq.Holds u v)
    (hvw : BinaryOp.lessEq.Holds v w) : BinaryOp.lessEq.Holds u w := by
  rw [lessEq_iff] at huv hvw ⊢
  exact huv.trans hvw

theorem lessEq_total (v w : Ordered) : BinaryOp.lessEq.Holds v w ∨ BinaryOp.lessEq.Holds w v := by
  rw [lessEq_iff, lessEq_iff]
  exact le_total _ _

theorem eq_equivalence : Equivalence fun v w : Ordered => BinaryOp.eq.Holds v w where
  refl v := (eq_iff v v).mpr rfl
  symm h := (eq_iff _ _).mpr ((eq_iff _ _).mp h).symm
  trans h h' := (eq_iff _ _).mpr (((eq_iff _ _).mp h).trans ((eq_iff _ _).mp h'))

end Ordered

theorem string_less_iff (s t : String) : BinaryOp.less.Holds (.string s) (.string t) ↔
    List.Lex (· < ·) (Text.codePoints s) (Text.codePoints t) :=
  (BinaryOp.holds_iff_rank rfl rfl rfl).trans Sum.Lex.inr_lt_inr_iff

theorem string_eq_iff (s t : String) : BinaryOp.eq.Holds (.string s) (.string t) ↔ s = t := by
  have hinj : Function.Injective fun s => (Sum.inrₗ (Text.codePoints s) : Rank) :=
    (Sum.Lex.inr_strictMono.comp Text.codePoints_strictMono).injective
  exact (BinaryOp.holds_iff_rank rfl rfl rfl).trans hinj.eq_iff

theorem number_less_string {v : Value} (h : v.isNumber = true) (s : String) :
    BinaryOp.less.Holds v (.string s) := by
  refine (BinaryOp.holds_iff_rank rfl (isOrdered_of_isNumber h) rfl).mpr ?_
  cases v with
  | integer | boolean => exact Sum.Lex.inl_lt_inr _ _
  | _ => cases h

theorem rank_of_isNumber {v : Value} (h : v.isNumber = true) {n : Int64}
    (hn : v.toInteger? = some n) : v.rank = Sum.inlₗ n.toInt := by
  have hs : v.type ≠ .string := by
    cases v with
    | integer | boolean => nofun
    | _ => cases h
  obtain ⟨m, hm, hrank⟩ :=
    exists_integer (isReference_of_isOrdered (isOrdered_of_isNumber h)) hs
  obtain rfl : m = n := Option.some.inj (hm.symm.trans hn)
  exact hrank

theorem number_less_iff {v w : Value} (hv : v.isNumber = true) (hw : w.isNumber = true)
    {m n : Int64} (hm : v.toInteger? = some m) (hn : w.toInteger? = some n) :
    BinaryOp.less.Holds v w ↔ m < n := by
  rw [BinaryOp.holds_iff_rank rfl (isOrdered_of_isNumber hv) (isOrdered_of_isNumber hw),
    rank_of_isNumber hv hm, rank_of_isNumber hw hn, Int64.lt_iff_toInt_lt]
  exact Sum.Lex.inl_lt_inl_iff

/-- **The comparisons speak of one order.**

With a reference on one side each of the six is the mismatch that names it and both types.  All
other values it compares, and the six answers agree: exactly one of less, equal and greater is true,
and the other three say what their signs say.

On integers, truth values and strings the order is total and equality is an equivalence.  Strings
are ordered by their code points, numbers by their integers, and every number is below every
string. -/
theorem comparisons_consistent :
    (∀ v w : Value, (v.isReference || w.isReference) = true →
      ∀ op : BinaryOp, op.isComparison = true →
        op.apply v w = .error (.typeMismatch op v.type w.type)) ∧
    (∀ v w : Value, (v.isReference || w.isReference) = false → Consistent v w) ∧
    (∀ v : Ordered, BinaryOp.lessEq.Holds v v) ∧
    (∀ u v w : Ordered, BinaryOp.lessEq.Holds u v → BinaryOp.lessEq.Holds v w →
      BinaryOp.lessEq.Holds u w) ∧
    (∀ v w : Ordered, BinaryOp.lessEq.Holds v w ∨ BinaryOp.lessEq.Holds w v) ∧
    (Equivalence fun v w : Ordered => BinaryOp.eq.Holds v w) ∧
    (∀ s t : String, (BinaryOp.less.Holds (.string s) (.string t) ↔
        List.Lex (· < ·) (Text.codePoints s) (Text.codePoints t)) ∧
      (BinaryOp.eq.Holds (.string s) (.string t) ↔ s = t)) ∧
    (∀ v w : Value, v.isNumber = true → w.isNumber = true → ∀ m n : Int64,
      v.toInteger? = some m → w.toInteger? = some n → (BinaryOp.less.Holds v w ↔ m < n)) ∧
    (∀ v : Value, v.isNumber = true → ∀ s : String, BinaryOp.less.Holds v (.string s)) := by
  refine ⟨fun v w h op hop => BinaryOp.apply_of_isReference hop h, fun v w h => ?_,
    fun v => (Ordered.lessEq_iff v v).mpr le_rfl, fun u v w => Ordered.lessEq_trans,
    Ordered.lessEq_total, Ordered.eq_equivalence,
    fun s t => ⟨string_less_iff s t, string_eq_iff s t⟩,
    fun v w hv hw m n => number_less_iff hv hw, fun v => number_less_string⟩
  obtain ⟨hv, hw⟩ := Bool.or_eq_false_iff.mp h
  exact consistent hv hw

/-- `True <= 0` and `0 <= ""`, so `True <= ""`; the empty value is compared with each of the three,
and an object with none -/
theorem comparisons_consistent_acrossTypes :
    BinaryOp.lessEq.Holds (.boolean true) (.string "") ∧
    Consistent .empty (.boolean true) ∧ Consistent .empty (.integer 0) ∧
    Consistent .empty (.string "") ∧
    BinaryOp.greater.apply (.object ⟨0⟩) .empty
      = .error (.typeMismatch .greater .object .empty) := by
  obtain ⟨hmismatch, hconsistent, -, htrans, -, -, -, -, hbelow⟩ := comparisons_consistent
  have hzero : BinaryOp.lessEq.Holds (.boolean true) (.integer 0) := rfl
  have hstring : BinaryOp.lessEq.Holds (.integer 0) (.string "") :=
    (hconsistent _ _ rfl).lessEq_iff.mpr (Or.inl (hbelow _ rfl ""))
  exact ⟨htrans ⟨.boolean true, rfl⟩ ⟨.integer 0, rfl⟩ ⟨.string "", rfl⟩ hzero hstring,
    hconsistent _ _ rfl, hconsistent _ _ rfl, hconsistent _ _ rfl, hmismatch _ _ rfl _ rfl⟩

end Value

end PageScript
