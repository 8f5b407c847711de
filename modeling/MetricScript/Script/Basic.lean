import MetricScript.Script.Operator

/-! Scripts: a list of statements over expressions. -/

namespace MetricScript

/-- A value written out. -/
inductive Literal where
  | number (x : Float)
  | string (s : String)
  | bool (b : Bool)
  | null

inductive Expr where
  | literal (value : Literal)
  | variable (name : String)
  | array (items : List Expr)
  | call (function : String) (arguments : List Expr)
  /-- A base with properties taken one after the other. -/
  | member (base : Expr) (properties : List String)
  /-- Operands of one rank of precedence, combined from the left. The chain is kept flat because the
  first operand is treated unlike the others. -/
  | chain (first : Expr) (rest : List (Operator × Expr))
  | not (operand : Expr)
  /-- A part of a tree that has no meaning. -/
  | unsupported
  deriving Inhabited

/-- The name of the variable, if the expression is just one. -/
def Expr.variable? : Expr → Option String
  | .variable name => some name
  | _ => none

inductive Statement where
  /-- Binds a name; without an expression the name becomes unbound. -/
  | assignment (name : String) (value : Option Expr)
  | plot (arguments : List Expr)
  | highlight (arguments : List Expr)
  /-- An expression by itself, which is not even evaluated. -/
  | expression (e : Expr)
  /-- A statement of a kind that the language does not have. -/
  | unsupported (rule : String)
  deriving Inhabited

structure Script where
  statements : List Statement
  deriving Inhabited

end MetricScript
