import PageScript.Value.Operation

/-!
# What operators yield

An operator yields a value that refers to nothing: no operator passes a reference on, or makes one.
And it fails for its operands alone (`RuntimeFault.isOperator`), never for a scope that is gone.

Main statements: `BinaryOp.computed_apply`, `UnaryOp.computed_apply`.
-/

namespace PageScript

/-- a fault of an operator, or of a condition -/
def RuntimeFault.isOperator : RuntimeFault → Bool
  | .typeMismatch .. => true
  | .unaryTypeMismatch .. => true
  | .conditionTypeMismatch _ => true
  | .divisionByZero => true
  | .overflow => true
  | _ => false

/-- a result that refers to nothing, or a fault of an operator -/
def Value.Computed (r : Except RuntimeFault Value) : Prop :=
  match r with
  | .ok v => v.isReference = false
  | .error f => f.isOperator = true

namespace Value

theorem computed_ok {v : Value} (h : v.isReference = false) : Computed (.ok v) := h

theorem data_of_computed {r : Except RuntimeFault Value} {v : Value} (h : Computed r)
    (hr : r = .ok v) : v.isReference = false := by
  subst hr
  exact h

theorem isOperator_of_computed {r : Except RuntimeFault Value} {f : RuntimeFault} (h : Computed r)
    (hr : r = .error f) : f.isOperator = true := by
  subst hr
  exact h

theorem fault_of_computed {r : Except RuntimeFault Value} {f : RuntimeFault} (h : Computed r)
    (hr : r = .error f) : f ≠ .scopeDropped := by
  rintro rfl
  exact nomatch isOperator_of_computed h hr

theorem computed_checked (n : Int) : Computed (checked n) := by
  unfold checked
  split
  · exact computed_ok rfl
  · exact rfl

theorem computed_arithmetic (op : BinaryOp) {f : Int → Int → Except RuntimeFault Value}
    (hf : ∀ a b, Computed (f a b)) (v w : Value) : Computed (arithmetic op f v w) := by
  unfold arithmetic integers
  split
  · exact hf _ _
  · exact rfl

theorem computed_quotient (a b : Int) : Computed (quotient a b) := by
  unfold quotient
  split
  · exact rfl
  · exact computed_checked _

theorem computed_remainder (a b : Int) : Computed (remainder a b) := by
  unfold remainder
  split
  · exact rfl
  · split
    · exact computed_checked _
    · exact rfl

theorem computed_power (a b : Int) : Computed (power a b) := by
  unfold power naturalPower reciprocalPower
  repeat' split
  all_goals first
    | exact computed_checked _
    | exact rfl

theorem computed_logical (op : BinaryOp) (f : Bool → Bool → Bool) (g : Int64 → Int64 → Int64)
    (v w : Value) : Computed (logical op f g v w) := by
  unfold logical
  split
  · exact computed_ok rfl
  · split
    · exact computed_ok rfl
    · exact rfl

theorem isOperator_of_order {op : BinaryOp} {v w : Value} {f : RuntimeFault}
    (h : order op v w = .error f) : f.isOperator = true := by
  unfold order integers at h
  repeat' split at h
  all_goals cases h
  all_goals rfl

theorem computed_comparison (op : BinaryOp) (accepts : Ordering → Bool) (v w : Value) :
    Computed (comparison op accepts v w) := by
  unfold comparison
  cases h : order op v w with
  | error f => exact isOperator_of_order h
  | ok o => exact computed_ok rfl

theorem computed_identical (v w : Value) : Computed (identical v w) := by
  unfold identical
  repeat' split
  all_goals first
    | exact computed_ok rfl
    | exact rfl

theorem computed_concat (v w : Value) : Computed (concat v w) := by
  unfold concat
  split
  · exact computed_ok rfl
  · exact rfl

theorem computed_add (v w : Value) : Computed (add v w) := by
  unfold add
  split
  · exact computed_ok rfl
  · exact computed_arithmetic _ (fun a b => computed_checked _) v w

end Value

theorem BinaryOp.computed_apply (op : BinaryOp) (v w : Value) : Value.Computed (op.apply v w) := by
  cases op with
  | xor | or | and => exact Value.computed_logical _ _ _ v w
  | eq | notEq | less | greater | lessEq | greaterEq => exact Value.computed_comparison _ _ v w
  | «is» => exact Value.computed_identical v w
  | concat => exact Value.computed_concat v w
  | add => exact Value.computed_add v w
  | sub | mul => exact Value.computed_arithmetic _ (fun a b => Value.computed_checked _) v w
  | mod => exact Value.computed_arithmetic _ Value.computed_remainder v w
  | intDiv | div => exact Value.computed_arithmetic _ Value.computed_quotient v w
  | pow => exact Value.computed_arithmetic _ Value.computed_power v w

theorem UnaryOp.computed_apply (op : UnaryOp) (v : Value) : Value.Computed (op.apply v) := by
  cases op with
  | neg =>
    show Value.Computed (Value.negate v)
    unfold Value.negate
    split
    · exact Value.computed_checked _
    · exact rfl
  | not =>
    show Value.Computed (Value.complement v)
    unfold Value.complement
    split
    · exact Value.computed_ok rfl
    · split
      · exact Value.computed_ok rfl
      · exact rfl

theorem Value.isOperator_of_truth {v : Value} {f : RuntimeFault} (h : v.truth = .error f) :
    f.isOperator = true := by
  unfold truth at h
  repeat' split at h
  all_goals cases h
  all_goals rfl

theorem Value.truth_ne_scopeDropped {v : Value} {f : RuntimeFault} (h : v.truth = .error f) :
    f ≠ .scopeDropped := by
  rintro rfl
  exact nomatch v.isOperator_of_truth h

end PageScript
