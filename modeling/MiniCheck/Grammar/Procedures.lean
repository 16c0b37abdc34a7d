import MiniCheck.Grammar.Reader

/-!
# The procedures of a reader

The grammar of a reader as procedures that call each other. No bound is set to their recursion, nor
to their loops: a loop is a procedure too, which reads what is left of it and calls itself for its
next turn.

What a call does is given once, as far as the calls go that it makes itself. What these do is left
open.
-/

namespace MiniCheck
namespace Grammar

open Token (Kind)

/-- What can be called. `declarations`, `parameters`, `declarators`, `items`, `chain` and
`arguments` are loops. -/
inductive Procedure
  | program
  | declarations
  | declaration
  | baseType
  /-- A function, behind its opening parenthesis. -/
  | functionTail (type : BaseType) (name : Token)
  | parameterList
  | parameters
  /-- Variables, behind the name of the first one. -/
  | variableTail (type : BaseType) (name : Token)
  | declarators (type : BaseType) (name : Token)
  /-- What stands between braces. -/
  | items
  /-- A statement, which opens a nesting level. -/
  | statement
  /-- A statement inside the level that is open for it. -/
  | command
  | branch (p : Location)
  | whileLoop (p : Location)
  | forLoop (p : Location)
  | ret (p : Location)
  | print (p : Location)
  /-- An expression, unless `terminator` comes next. -/
  | clause (terminator : Kind)
  /-- Operations of at most this level. -/
  | level (n : Fin (BinaryOp.topLevel + 1))
  /-- The operations behind `left` whose operands are of level `n`. -/
  | chain (n : Fin BinaryOp.topLevel) (left : Expr)
  /-- An operand, which opens a nesting level. -/
  | operand
  /-- An operand inside the level that is open for it. -/
  | prefixed
  | primary
  | argumentList
  | arguments

namespace Procedure

/-- What a call answers with. -/
@[reducible] def Answer : Procedure → Type
  | program => Program
  | declarations | declaration | variableTail _ _ | declarators _ _ | items => List Stmt
  | baseType => BaseType
  | functionTail _ _ | statement | command => Stmt
  | branch _ | whileLoop _ | forLoop _ | ret _ | print _ => Stmt
  | parameterList | parameters => List Param
  | clause _ | level _ | chain _ _ | operand | prefixed | primary => Expr
  | argumentList | arguments => List Expr

abbrev expression : Procedure := level (Fin.last BinaryOp.topLevel)

end Procedure

/-- What calls do. -/
abbrev Calling := (p : Procedure) → Reading p.Answer

namespace Reading

/-- What `x` reads, and a token of kind `k` behind it. -/
def endedBy {α : Type} (x : Reading α) (k : Kind) (context : String) : Reading α := do
  let value ← x
  let _ ← expect k context
  return value

/-! ## Turns of loops

Each loop is given the reader for its other turns. -/

def separatedWith {α : Type} (item : Reading α) (others : Reading (List α)) : Reading (List α) := do
  let a ← item
  if ← accept .comma then return a :: (← others)
  else return [a]

def chainWith (level : Nat) (operand : Reading Expr) (others : Expr → Reading Expr) (left : Expr) :
    Reading Expr := do
  match BinaryOp.atLevel? level (← peek) with
  | none => pure left
  | some op =>
    let p ← here
    skip
    let right ← operand
    let m ← fresh p
    others (.binary op left right m)

def declaratorsWith (expr : Reading Expr) (type : BaseType) (others : Token → Reading (List Stmt))
    (name : Token) : Reading (List Stmt) := do
  let init ← optionally .equal expr
  let declared := Stmt.declareVar name.lexeme type init name.location
  if ← accept .comma then
    let name ← expect .name "after ','"
    return declared :: (← others name)
  else return [declared]

def itemsWith (declaration : Reading (List Stmt)) (statement : Reading Stmt)
    (others : Reading (List Stmt)) : Reading (List Stmt) := do
  let k ← peek
  if k = .rightBrace || (← remaining).isEmpty then return []
  else if k.isType then
    let declared ← declaration
    return declared ++ (← others)
  else if ← accept .semicolon then others
  else
    let s ← statement
    return s :: (← others)

def declarationsWith (declaration others : Reading (List Stmt)) : Reading (List Stmt) := do
  if (← peek).isType then
    let declared ← declaration
    return declared ++ (← others)
  else return []

/-! ## Calls -/

/-- What a call does, if the calls that it makes itself do what `call` says. -/
def body (call : Calling) : Calling
  | .program => do
    let nodes ← call .declarations
    if (← remaining).isEmpty then return nodes
    else fail [.intWord, .floatWord, .voidWord, .eof] "at top level"
  | .declarations => declarationsWith (call .declaration) (call .declarations)
  | .declaration => do
    let type ← call .baseType
    let name ← expect .name "after type name"
    if ← accept .leftParen then return [← call (.functionTail type name)]
    else call (.variableTail type name)
  | .baseType => baseType
  | .functionTail type name => do
    let params ← call .parameterList
    let _ ← expect .rightParen "after parameters"
    let _ ← expect .leftBrace "before function body"
    let statements ← nested "function" (call .items)
    let _ ← expect .rightBrace "after function body"
    return .declareFun name.lexeme type params statements name.location
  | .parameterList => do
    if (← peek).isType then call .parameters else return []
  | .parameters => separatedWith (do
      let type ← call .baseType
      let name ← expect .name "as parameter name"
      return ⟨name.lexeme, type, name.location⟩) (call .parameters)
  | .variableTail type name =>
    endedBy (call (.declarators type name)) .semicolon "after variable declaration"
  | .declarators type name =>
    declaratorsWith (call .expression) type (fun next => call (.declarators type next)) name
  | .items => itemsWith (call .declaration) (call .statement) (call .items)
  | .statement => nested "statement" (call .command)
  | .command => do
    let p ← here
    match ← peek with
    | .intWord | .floatWord | .voidWord => declared p <$> call .declaration
    | .semicolon =>
      skip
      return .expr (.omitted (← fresh p)) p
    | .leftBrace =>
      skip
      let statements ← endedBy (call .items) .rightBrace "after block"
      return .block statements p
    | .ifWord => call (.branch p)
    | .whileWord => call (.whileLoop p)
    | .forWord => call (.forLoop p)
    | .returnWord => call (.ret p)
    | .printWord => call (.print p)
    | _ =>
      let value ← endedBy (call .expression) .semicolon "after expression"
      return .expr value p
  | .branch p => branch (call .expression) (call .statement) p
  | .whileLoop p => whileLoop (call .expression) (call .statement) p
  | .forLoop p => do
    skip
    let _ ← expect .leftParen "after 'for'"
    let init ← endedBy (call (.clause .semicolon)) .semicolon "after for initializer"
    let condition ← endedBy (call (.clause .semicolon)) .semicolon "after for condition"
    let update ← endedBy (call (.clause .rightParen)) .rightParen "after for clauses"
    return .forLoop init condition update (← call .statement) p
  | .ret p => do
    skip
    return .ret (← endedBy (call (.clause .semicolon)) .semicolon "after return") p
  | .print p => print (call .expression) p
  | .clause terminator => clause (call .expression) terminator
  | .level ⟨0, _⟩ => call .operand
  | .level ⟨n + 1, h⟩ => do
    let left ← call (.level ⟨n, Nat.lt_of_succ_lt h⟩)
    call (.chain ⟨n, Nat.lt_of_succ_lt_succ h⟩ left)
  | .chain n left =>
    chainWith (n.val + 1) (call (.level n.castSucc)) (fun left => call (.chain n left)) left
  | .operand => nested "expression" (call .prefixed)
  | .prefixed => do
    match ← peek with
    | .bang => signed .not (call .operand)
    | .minus => signed .neg (call .operand)
    | _ => call .primary
  | .primary => do
    match ← peek with
    | .leftParen => parenthesized (call .expression)
    | .number => literal
    | .name =>
      let name ← expect .name "in expression"
      if ← accept .equal then
        let value ← call .expression
        return .assign name.lexeme value (← fresh name.location)
      else if ← accept .leftParen then
        let args ← endedBy (call .argumentList) .rightParen "after function arguments"
        return .call name.lexeme args (← fresh name.location)
      else return .var name.lexeme (← fresh name.location)
    | _ => fail [.leftParen, .number, .bang, .minus, .name] "to start an expression"
  | .argumentList => do
    if (← peek) = .rightParen then return [] else call .arguments
  | .arguments => separatedWith (call .expression) (call .arguments)

end Reading
end Grammar
end MiniCheck
