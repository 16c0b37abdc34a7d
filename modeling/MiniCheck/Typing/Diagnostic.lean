import MiniCheck.Typing.Ty

/-!
# What a check complains about

A fault says what is wrong, a diagnostic where. Faults never stop a check.
-/

namespace MiniCheck

/-- The statements that test a condition. -/
inductive Construct
  | ifBranch
  | whileLoop
  | forLoop
deriving DecidableEq, Repr

namespace Construct

def word : Construct → String
  | ifBranch => "if"
  | whileLoop => "while"
  | forLoop => "for"

end Construct

inductive Fault
  | duplicateVariable (name : String)
  | duplicateFunction (name : String)
  | undeclaredVariable (name : String)
  | undeclaredFunction (name : String)
  | initializer (name : String) (expected found : Ty)
  | assignment (name : String) (expected found : Ty)
  | returned (expected found : Ty)
  | argument (function : String) (position : Nat) (expected found : Ty)
  | argumentCount (function : String) (expected found : Nat)
  | operands (op : BinaryOp) (left right : Ty)
  | negation (found : Ty)
  | condition (construct : Construct) (found : Ty)
deriving DecidableEq, Repr

namespace Fault

/-- The faults that make the symbol table refuse a declaration. -/
def isStructural : Fault → Bool
  | duplicateVariable _ | duplicateFunction _ => true
  | _ => false

def mismatch (expected found : Ty) : String := s!"expected '{expected.name}', found '{found.name}'"

def describe : Fault → String
  | duplicateVariable name => s!"variable '{name}' is already declared in this scope"
  | duplicateFunction name => s!"function '{name}' is already declared"
  | undeclaredVariable name => s!"variable '{name}' is not declared"
  | undeclaredFunction name => s!"function '{name}' is not declared"
  | initializer name expected found =>
    s!"incompatible type in initialization of '{name}': {mismatch expected found}"
  | assignment name expected found =>
    s!"incompatible assignment to '{name}': {mismatch expected found}"
  | returned expected found => s!"incompatible return type: {mismatch expected found}"
  | argument function position expected found =>
    s!"argument {position} of function '{function}' has incompatible type: " ++
      mismatch expected found
  | argumentCount function expected found =>
    s!"function '{function}' called with wrong number of arguments: " ++
      s!"expected {expected}, found {found}"
  | operands op left right =>
    s!"operator '{op.symbol}' requires numeric operands, " ++
      s!"found '{left.name}' and '{right.name}'"
  | negation found => s!"unary operator '-' requires a numeric operand, found '{found.name}'"
  | condition construct found =>
    s!"condition of '{construct.word}' must be a boolean or numeric expression, " ++
      s!"found '{found.name}'"

end Fault

structure Diagnostic where
  fault : Fault
  location : Location
deriving DecidableEq, Repr

namespace Diagnostic

def message (d : Diagnostic) : String := s!"Semantic error at {d.location}: {d.fault.describe}"

end Diagnostic
end MiniCheck
