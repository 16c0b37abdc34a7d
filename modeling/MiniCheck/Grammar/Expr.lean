import MiniCheck.Grammar.Cursor

/-!
# Expressions

Operations are read level by level, from the tightest to the loosest, and those
of one level group to the left. Their operands are literals, names, assignments,
calls, expressions in parentheses, and operands behind a sign. An assignment
takes everything to its right.

Every operand opens a nesting level while it is read; the number of levels that
may still be opened bounds the recursion.
-/

namespace MiniCheck

namespace BinaryOp

def ofKind? : Token.Kind → Option BinaryOp
  | .plus => some add
  | .minus => some sub
  | .star => some mul
  | .slash => some div
  | .percent => some mod
  | .equalEqual => some eq
  | .bangEqual => some ne
  | .less => some lt
  | .lessEqual => some le
  | .greater => some gt
  | .greaterEqual => some ge
  | .andAnd => some and
  | .orOr => some or
  | _ => none

/-- The operator that a kind stands for among those of one level. -/
def atLevel? (level : Nat) (k : Token.Kind) : Option BinaryOp :=
  (ofKind? k).filter fun op => op.level = level

end BinaryOp

namespace Grammar

open Grammar.Parser

/-- The operations of one level behind their first operand. The bound serves as in
`separated`. -/
def chain (level : Nat) (operand : Parser Expr) : List Token → Expr → Parser Expr
  | [], left => pure left
  | _ :: bound, left => do
    match BinaryOp.atLevel? level (← peek) with
    | none => pure left
    | some op =>
      let p ← here
      skip
      let right ← operand
      let m ← fresh p
      chain level operand bound (.binary op left right m)

/-- Operations of at most the given level. -/
def operation (operand : Parser Expr) : Nat → Parser Expr
  | 0 => operand
  | level + 1 => do
    let left ← operation operand level
    chain (level + 1) (operation operand level) (← remaining) left

def arguments (expr : Parser Expr) : Parser (List Expr) := do
  if (← peek) = .rightParen then return [] else separated expr (← remaining)

/-- What begins with a name: an assignment, a call, or the name alone. -/
def named (expr : Parser Expr) : Parser Expr := do
  let name ← expect .name "in expression"
  if ← accept .equal then
    let value ← expr
    return .assign name.lexeme value (← fresh name.location)
  else if ← accept .leftParen then
    let args ← arguments expr
    let _ ← expect .rightParen "after function arguments"
    return .call name.lexeme args (← fresh name.location)
  else return .var name.lexeme (← fresh name.location)

/-- An expression between parentheses, the first of which comes next. -/
def parenthesized (expr : Parser Expr) : Parser Expr := do
  skip
  let e ← expr
  let _ ← expect .rightParen "after expression"
  return e

def literal : Parser Expr := do
  let t ← expect .number "in expression"
  return .number t.lexeme (← fresh t.location)

/-- An operation with one operand, whose sign comes next. -/
def signed (op : UnaryOp) (operand : Parser Expr) : Parser Expr := do
  let p ← here
  skip
  let e ← operand
  return .unary op e (← fresh p)

/-- An operand that may open `depth` nesting levels, the first of them its own. -/
def operand : Nat → Parser Expr
  | 0 => fail [] "expression nested too deeply"
  | depth + 1 => do
    match ← peek with
    | .bang => signed .not (operand depth)
    | .minus => signed .neg (operand depth)
    | .leftParen => parenthesized (operation (operand depth) BinaryOp.topLevel)
    | .number => literal
    | .name => named (operation (operand depth) BinaryOp.topLevel)
    | _ => fail [.leftParen, .number, .bang, .minus, .name] "to start an expression"

/-- An expression inside which `depth` nesting levels may be opened. -/
def expression (depth : Nat) : Parser Expr := operation (operand depth) BinaryOp.topLevel

end Grammar
end MiniCheck
