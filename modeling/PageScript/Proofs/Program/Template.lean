import PageScript.Eval.Expression
import PageScript.Parser.Statement
import PageScript.Proofs.Program.Canonical
import PageScript.Proofs.Value.Computed

/-!
# Templates

A template is plain text with expressions inserted in it, each of them between `<%=` and `%>`.  Here
the expressions are made of literals, operators and parentheses, so that their values depend on
nothing else.

* `Constant`             such an expression, without locations;
* `Constant.value`       its value, or the fault of the first operator that fails;
* `Template.source`      the text of a template;
* `Template.statements`  what it does: it writes every text that is not empty, and every expression;
* `Template.Writable`    the texts open no code, and the expressions can be read back.
-/

namespace PageScript

/-! ## expressions of literals -/

/-- an expression of literals, operators and parentheses -/
inductive Constant
  | literal (value : Literal)
  | binary (op : BinaryOp) (left right : Constant)
  | unary (op : UnaryOp) (operand : Constant)
  | paren (inner : Constant)

namespace Constant

def expr : Constant → Expr
  | .literal value => .literal default value
  | .binary op left right => .binary default op left.expr right.expr
  | .unary op operand => .unary default op operand.expr
  | .paren inner => .paren default inner.expr

/-- the value of the expression, or the fault of the first operator that fails; operands are
evaluated from left to right -/
def value : Constant → Except RuntimeFault Value
  | .literal value => .ok value.value
  | .binary op left right => do op.apply (← left.value) (← right.value)
  | .unary op operand => do op.apply (← operand.value)
  | .paren inner => inner.value

/-- what the page shows for the value -/
def shown (c : Constant) : String :=
  match c.value with
  | .ok v => v.plainText?.getD ""
  | .error _ => ""

theorem bare_expr : ∀ c : Constant, c.expr.bare = c.expr
  | .literal _ => rfl
  | .binary op a b => by rw [expr, Expr.bare, bare_expr a, bare_expr b]
  | .unary op a => by rw [expr, Expr.bare, bare_expr a]
  | .paren a => by rw [expr, Expr.bare, bare_expr a]

/-- like that of a single operator, the value refers to nothing, and the fault is an operator's -/
theorem computed_value : ∀ c : Constant, Value.Computed c.value
  | .literal value => by
    show value.value.isReference = false
    cases value <;> rfl
  | .binary op a b => by
    have ha := computed_value a
    have hb := computed_value b
    rw [value]
    generalize a.value = x at ha ⊢
    generalize b.value = y at hb ⊢
    cases x with
    | error f => exact ha
    | ok x =>
      cases y with
      | error f => exact hb
      | ok y => exact op.computed_apply x y
  | .unary op a => by
    have ha := computed_value a
    rw [value]
    generalize a.value = x at ha ⊢
    cases x with
    | error f => exact ha
    | ok x => exact op.computed_apply x
  | .paren a => computed_value a

theorem text_of_value {c : Constant} {v : Value} (h : c.value = .ok v) (s : Store) :
    s.text v = c.shown := by
  have hsome : v.plainText?.isSome = true := by
    rw [Value.plainText?_isSome, Value.data_of_computed c.computed_value h]
    rfl
  obtain ⟨text, htext⟩ := Option.isSome_iff_exists.mp hsome
  rw [s.text_of_plainText? htext, shown, h]
  simp only [htext, Option.getD_some]

end Constant

/-! ## templates -/

/-- a text, then expressions with the texts behind them -/
structure Template where
  head : String
  inserts : List (Constant × String)

namespace Template

def insertSource (p : Constant × String) : String := "<%= " ++ p.1.expr.source ++ " %>" ++ p.2

def source (t : Template) : String := t.head ++ String.join (t.inserts.map insertSource)

/-- a text is written as a literal, if it is not empty -/
def textConstants (text : String) : List Constant :=
  if text.isEmpty then [] else [.literal (.string text)]

/-- what is written for a text and the inserts behind it, piece by piece -/
def constants (head : String) (inserts : List (Constant × String)) : List Constant :=
  textConstants head ++ inserts.flatMap fun p => p.1 :: textConstants p.2

/-- the statement that writes an expression -/
def writing (c : Constant) : Stmt := Parser.writeStatement default c.expr

theorem bare_writeStatement {e : Expr} {c : Constant} (h : e.bare = c.expr) (loc : Location) :
    (Parser.writeStatement loc e).bare = writing c := by
  show Stmt.expr default (.call default (.path default ["response", "write"]) [e.bare]) = _
  rw [h]
  rfl

def statements (t : Template) : List Stmt := (constants t.head t.inserts).map writing

/-- the texts open no code; in the expressions integers have no sign and strings no line feed, they
respect the table of precedence and take at most 63 levels of nesting, of which the whole expression
is one -/
structure Writable (t : Template) : Prop where
  head : opensCode t.head.toList = false
  texts : ∀ p ∈ t.inserts, opensCode p.2.toList = false
  spelled : ∀ p ∈ t.inserts, p.1.expr.spelled = true
  canonical : ∀ p ∈ t.inserts, p.1.expr.canonical = true
  nesting : ∀ p ∈ t.inserts, p.1.expr.nesting + 1 ≤ 63

theorem Writable.fits {t : Template} (h : t.Writable) {p : Constant × String}
    (hp : p ∈ t.inserts) : p.1.expr.fits 63 = true := by
  have hnesting : p.1.expr.nesting < 63 := h.nesting p hp
  rw [Expr.fits, h.spelled p hp, h.canonical p hp, decide_eq_true hnesting]
  rfl

theorem constants_cons (head : String) (p : Constant × String)
    (inserts : List (Constant × String)) :
    constants head (p :: inserts) = textConstants head ++ p.1 :: constants p.2 inserts := by
  simp [constants]

theorem constants_append (head : String) (before : List (Constant × String))
    (p : Constant × String) (after : List (Constant × String)) :
    constants head (before ++ p :: after)
      = constants head before ++ p.1 :: constants p.2 after := by
  simp [constants]

/-- pieces one after the other show their texts one after the other -/
theorem join_shown (head : String) (inserts : List (Constant × String)) :
    String.join ((constants head inserts).map Constant.shown)
      = head ++ String.join (inserts.map fun p => p.1.shown ++ p.2) := by
  have htext : ∀ text, String.join ((textConstants text).map Constant.shown) = text := by
    intro text
    unfold textConstants
    cases hempty : text.isEmpty with
    | true =>
      rw [String.isEmpty_iff.mp hempty]
      rfl
    | false => simp [Constant.shown, Constant.value, Literal.value, Value.plainText?]
  induction inserts generalizing head with
  | nil => simp [constants, htext]
  | cons p inserts ih =>
    rw [constants_cons, List.map_append, String.join_append, htext]
    simp [ih, String.append_assoc]

end Template

end PageScript
