import MetricScript.Decimal.Read
import MetricScript.Script.Basic
import MetricScript.Text.Fold

/-! # The grammar of the language

Phrases are what the parser makes out of a text, before they are laid out as a tree. Each phrase
has a meaning, the expression that it is to be read as. -/

namespace MetricScript

/-! ## Levels -/

/-- The tiers of precedence of the binary operators, from the loosest to the tightest. -/
inductive Tier where
  | logical
  | comparison
  | additive
  | multiplicative
  deriving DecidableEq, Repr

/-- What stands at a place within an expression. -/
inductive Level where
  | expression
  | tier (t : Tier)
  | unary
  | primary
  deriving DecidableEq, Repr

/-- The rule of the grammar for a level. -/
def Level.rule : Level → String
  | .expression => "expression"
  | .tier .logical => "logicalExpression"
  | .tier .comparison => "comparisonExpression"
  | .tier .additive => "additiveExpression"
  | .tier .multiplicative => "multiplicativeExpression"
  | .unary => "unaryExpression"
  | .primary => "primary"

/-- What the operators of a tier join. -/
def Tier.operand : Tier → Level
  | .logical => .tier .comparison
  | .comparison => .tier .additive
  | .additive => .tier .multiplicative
  | .multiplicative => .unary

namespace Operator

def tier : Operator → Tier
  | .and => .logical
  | .or => .logical
  | .equal => .comparison
  | .notEqual => .comparison
  | .lessThan => .comparison
  | .greaterThan => .comparison
  | .lessThanEqual => .comparison
  | .greaterThanEqual => .comparison
  | .add => .additive
  | .subtract => .additive
  | .multiply => .multiplicative
  | .divide => .multiplicative

/-- The kind of token that an operator is written as. -/
def token : Operator → String
  | .and => "And"
  | .or => "Or"
  | .equal => "Eq"
  | .notEqual => "Neq"
  | .lessThan => "Lt"
  | .greaterThan => "Gt"
  | .lessThanEqual => "Lte"
  | .greaterThanEqual => "Gte"
  | .add => "Plus"
  | .subtract => "Minus"
  | .multiply => "Mult"
  | .divide => "Div"

end Operator

/-! ## Phrases -/

/-- What is called: a function by its identifier, or `plot` by a token of its own. -/
inductive Callee where
  | identifier (name : String)
  | plot (image : String)

inductive Quote where
  | single
  | double
  deriving DecidableEq, Repr

def Quote.char : Quote → Char
  | .single => '\x27'
  | .double => '\x22'

/-- A text with a quote on either side. -/
def Quote.around (quote : Quote) (text : String) : String :=
  String.ofList (quote.char :: text.toList ++ [quote.char])

mutual

inductive Phrase : Level → Type where
  | expression (p : Phrase (.tier .logical)) : Phrase .expression
  /-- An operand, with the others behind it. -/
  | joined {t : Tier} (first : Phrase t.operand) (rest : Links t) : Phrase (.tier t)
  | negated (p : Phrase .unary) : Phrase .unary
  | plain (p : Phrase .primary) : Phrase .unary
  | group (p : Phrase .expression) : Phrase .primary
  | array (items : List (Phrase .expression)) : Phrase .primary
  | call (callee : Callee) (arguments : List (Phrase .expression)) (members : List String) :
      Phrase .primary
  /-- A variable, perhaps with members. -/
  | name (first : String) (members : List String) : Phrase .primary
  | number (image : String) (x : Float) (h : Decimal.literal? image = some x) : Phrase .primary
  | string (quote : Quote) (text : String) : Phrase .primary
  | bool (b : Bool) : Phrase .primary

/-- Operands of a tier, each with the operator in front of it. -/
inductive Links : Tier → Type where
  | nil {t : Tier} : Links t
  | cons {t : Tier} (op : Operator) (h : op.tier = t) (p : Phrase t.operand) (rest : Links t) :
      Links t

end

/-- The operators of links, in order. -/
def Links.operators {t : Tier} : Links t → List Operator
  | .nil => []
  | .cons op _ _ rest => op :: rest.operators

/-! ## Meaning -/

/-- Operands joined by operators; a lone operand stands for itself. -/
def Expr.joined (first : Expr) : List (Operator × Expr) → Expr
  | [] => first
  | rest => .chain first rest

/-- An expression with the members behind it, if there are any. -/
def Expr.followed (base : Expr) : List String → Expr
  | [] => base
  | names => .member base names

/-- The name of the function that is called. -/
def Callee.function : Callee → String
  | .identifier name => name
  | .plot image => image

mutual

/-- The expression that a phrase is to be read as. -/
def Phrase.meaning {l : Level} : Phrase l → Expr
  | .expression p => p.meaning
  | .joined first rest => first.meaning.joined rest.meaning
  | .negated p => .not p.meaning
  | .plain p => p.meaning
  | .group p => p.meaning
  | .array items => .array (Phrase.meanings items)
  | .call callee arguments members =>
    Expr.followed (.call callee.function (Phrase.meanings arguments)) members
  | .name first members => Expr.followed (.variable first) members
  | .number _ x _ => .literal (.number x)
  | .string _ text => .literal (.string text)
  | .bool b => .literal (.bool b)
termination_by structural p => p

def Links.meaning {t : Tier} : Links t → List (Operator × Expr)
  | .nil => []
  | .cons op _ p rest => (op, p.meaning) :: rest.meaning
termination_by structural rest => rest

/-- The meanings of arguments or items, in order. -/
def Phrase.meanings : List (Phrase .expression) → List Expr
  | [] => []
  | p :: rest => p.meaning :: Phrase.meanings rest
termination_by structural ps => ps

end

theorem Links.map_fst_meaning {t : Tier} : (rest : Links t) →
    rest.meaning.map Prod.fst = rest.operators
  | .nil => rfl
  | .cons op _ _ rest => congrArg (op :: ·) rest.map_fst_meaning

/-! ## Statements -/

/-- A statement as it is written. -/
inductive Sentence where
  | assignment (name : String) (value : Option (Phrase .expression))
  | highlight (arguments : List (Phrase .expression))
  | expression (e : Phrase .expression)

/-- The name that a phrase begins with, and the arguments if it is called. -/
def Phrase.opening? {l : Level} : Phrase l → Option (String × Option (List (Phrase .expression)))
  | .expression p => p.opening?
  | .joined first _ => first.opening?
  | .plain p => p.opening?
  | .call callee arguments _ => some (callee.function, some arguments)
  | .name first _ => some (first, none)
  | .negated _ => none
  | .group _ => none
  | .array _ => none
  | .number _ _ _ => none
  | .string _ _ => none
  | .bool _ => none
termination_by structural p => p

namespace Sentence

/-- The statement that a sentence is to be read as. An expression that begins with a call of `plot`
is a plot of the arguments of that call. -/
def meaning : Sentence → Statement
  | .assignment name value => .assignment name (value.map Phrase.meaning)
  | .highlight arguments => .highlight (Phrase.meanings arguments)
  | .expression e =>
    match e.opening?.filter fun (name, _) => Text.equalsFolded name "plot" with
    | some (_, some arguments) => .plot (Phrase.meanings arguments)
    | _ => .expression e.meaning

/-- The statement that a sentence is read as. A variable of the name `plot` is not told from a call
without arguments. -/
def reading : Sentence → Statement
  | .assignment name value => .assignment name (value.map Phrase.meaning)
  | .highlight arguments => .highlight (Phrase.meanings arguments)
  | .expression e =>
    match e.opening?.filter fun (name, _) => Text.equalsFolded name "plot" with
    | some (_, arguments) => .plot (Phrase.meanings (arguments.getD []))
    | none => .expression e.meaning

/-- Whether a sentence begins with the name `plot` without calling it. -/
def beginsBare : Sentence → Bool
  | .expression e =>
    e.opening?.any fun (name, arguments) => Text.equalsFolded name "plot" && arguments.isNone
  | _ => false

/-- A sentence is read as what it means unless it begins with the name `plot` without a call. -/
theorem reading_eq_meaning_iff (s : Sentence) : s.reading = s.meaning ↔ s.beginsBare = false := by
  cases s with
  | assignment name value => exact iff_of_true rfl rfl
  | highlight arguments => exact iff_of_true rfl rfl
  | expression e =>
      cases hopening : e.opening? with
      | none => simp [reading, meaning, beginsBare, hopening]
      | some opening =>
          obtain ⟨name, _ | arguments⟩ := opening <;>
            cases hplot : Text.equalsFolded name "plot" <;>
              simp [reading, meaning, beginsBare, hopening, hplot, Option.filter]

end Sentence

end MetricScript
