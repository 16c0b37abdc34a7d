import MiniCheck.Tree.Basic

/-!
# Types of expressions

Beside the types that a program can write there is `bool`, the type of
comparisons and of logic, and `unknown`, the type of an expression in which
something was already reported. An unknown type fits everywhere, so one mistake
is reported once.
-/

namespace MiniCheck

inductive Ty
  | int
  | float
  | void
  | bool
  | unknown
deriving DecidableEq, Repr

namespace Ty

def ofBase : BaseType → Ty
  | .int => int
  | .float => float
  | .void => void

instance : Coe BaseType Ty := ⟨ofBase⟩

def name : Ty → String
  | int => "int"
  | float => "float"
  | void => "void"
  | bool => "bool"
  | unknown => "unknown"

/-- The types that arithmetic, comparison and negation take. -/
def isNumeric : Ty → Bool
  | int | float | unknown => true
  | void | bool => false

/-- The types that a condition may have. -/
def isCondition : Ty → Bool
  | int | float | bool | unknown => true
  | void => false

/-- Whether a value of type `found` may stand where `target` is expected: the same
type, an integer for a `float`, or an unknown type. -/
def accepts (target found : Ty) : Bool :=
  target = found || (target = float && found = int) || found = unknown

/-- The type of an arithmetic operation on numbers. -/
def arithmetic (left right : Ty) : Ty :=
  if left = float || right = float then float else int

/-- A literal with a point is a `float`. -/
def ofLiteral (lexeme : String) : Ty :=
  if '.' ∈ lexeme.toList then float else int

@[simp] theorem accepts_self (t : Ty) : t.accepts t = true := by
  simp [accepts]

@[simp] theorem accepts_unknown (t : Ty) : t.accepts unknown = true := by
  simp [accepts]

end Ty
end MiniCheck
