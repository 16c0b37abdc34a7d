import MiniCheck.Grammar.Program

/-!
# Reading with a counter

A reader keeps all of its tokens and counts how many of them it has passed over, which number
comes next, and how many nesting levels are open. It can be asked for a program again after any
outcome, and goes on where it stopped.

The grammar is the one of cursors. Its parts are not told how deep they lie: each asks the counter
when it opens a level, and closes the level again, also on the way out with an error.
-/

namespace MiniCheck
namespace Grammar

open Token (Kind)

structure Reader where
  tokens : List Token
  /-- How many tokens have been passed over. -/
  position : Nat
  nextId : Nat
  /-- How many nesting levels are open. -/
  depth : Nat
deriving DecidableEq, Repr

namespace Reader

def ofTokens (ts : List Token) : Reader := ⟨ts, 0, 0, 0⟩

variable (r : Reader)

def current? : Option Token := r.tokens[r.position]?

/-- The kind of the next token, `eof` if there is none. -/
def kind : Kind := (r.current?.map Token.kind).getD .eof

def lexeme : String := (r.current?.map Token.lexeme).getD ""

/-- Where the last token of all ends. -/
def finish : Location := (r.tokens.getLast?.map Token.finish).getD .first

def location : Location := (r.current?.map Token.location).getD r.finish

def advance : Reader :=
  if r.position < r.tokens.length then { r with position := r.position + 1 } else r

def opened : Reader := { r with depth := r.depth + 1 }

def closed : Reader := { r with depth := r.depth - 1 }

/-- The report that the next token is none of `expected`. -/
def mismatch (expected : List Kind) (context : String) : Mismatch :=
  ⟨expected, r.kind, r.lexeme, context, r.location⟩

end Reader

abbrev Reading := EStateM Mismatch Reader

namespace Reading

/-! ## Single steps -/

def peek : Reading Kind := fun r => .ok r.kind r

def here : Reading Location := fun r => .ok r.location r

def remaining : Reading (List Token) := fun r => .ok (r.tokens.drop r.position) r

def fail {α : Type} (expected : List Kind) (context : String) : Reading α :=
  fun r => .error (r.mismatch expected context) r

/-- Passes over the next token, whatever it is. -/
def skip : Reading Unit := fun r => .ok () r.advance

/-- Passes over the next token if it is of kind `k`, and tells whether it was. -/
def accept (k : Kind) : Reading Bool := fun r =>
  if r.kind = k then .ok true r.advance else .ok false r

def expect (k : Kind) (context : String) : Reading Token := fun r =>
  match r.current? with
  | some t =>
    if t.kind = k then .ok t { r with position := r.position + 1 }
    else .error (r.mismatch [k] context) r
  | none => .error (r.mismatch [k] context) r

/-- The mark of a new expression that points at `p`. -/
def fresh (p : Location) : Reading Mark := fun r =>
  .ok ⟨r.nextId, p⟩ { r with nextId := r.nextId + 1 }

/-- Reads one nesting level deeper, if another one may be opened. -/
def nested {α : Type} (what : String) (x : Reading α) : Reading α := fun r =>
  if r.depth < maxNesting then
    match x r.opened with
    | .ok a s => .ok a s.closed
    | .error m s => .error m s.closed
  else fail [] (what ++ " nested too deeply") r

theorem bind_apply {α β : Type} (x : Reading α) (g : α → Reading β) (r : Reader) :
    (x >>= g) r =
      match x r with
      | .ok a s => g a s
      | .error m s => .error m s := by
  change EStateM.bind x g r = _
  unfold EStateM.bind
  cases x r <;> rfl

/-- One or more items with commas between them. The bound serves as it does for cursors. -/
def separated {α : Type} (item : Reading α) : List Token → Reading (List α)
  | [] => return [← item]
  | _ :: bound => do
    let a ← item
    if ← accept .comma then return a :: (← separated item bound)
    else return [a]

/-- What `x` reads behind a token of kind `k`, or nothing where no such token comes next. -/
def optionally {α : Type} (k : Kind) (x : Reading α) : Reading (Option α) := do
  if ← accept k then some <$> x else pure none

/-! ## Expressions -/

def chain (level : Nat) (operand : Reading Expr) : List Token → Expr → Reading Expr
  | [], left => pure left
  | _ :: bound, left => do
    match BinaryOp.atLevel? level (← peek) with
    | none => pure left
    | some op =>
      let p ← here
      skip
      let right ← operand
      let m ← fresh p
      chain level operand bound (.binary op left right m)

/-- Operations of at most the given level. -/
def operation (operand : Reading Expr) : Nat → Reading Expr
  | 0 => operand
  | level + 1 => do
    let left ← operation operand level
    chain (level + 1) (operation operand level) (← remaining) left

def arguments (expr : Reading Expr) : Reading (List Expr) := do
  if (← peek) = .rightParen then return [] else separated expr (← remaining)

/-- What begins with a name: an assignment, a call, or the name alone. -/
def named (expr : Reading Expr) : Reading Expr := do
  let name ← expect .name "in expression"
  if ← accept .equal then
    let value ← expr
    return .assign name.lexeme value (← fresh name.location)
  else if ← accept .leftParen then
    let args ← arguments expr
    let _ ← expect .rightParen "after function arguments"
    return .call name.lexeme args (← fresh name.location)
  else return .var name.lexeme (← fresh name.location)

/-- An expression between parentheses, the first of which comes next. -/
def parenthesized (expr : Reading Expr) : Reading Expr := do
  skip
  let e ← expr
  let _ ← expect .rightParen "after expression"
  return e

def literal : Reading Expr := do
  let t ← expect .number "in expression"
  return .number t.lexeme (← fresh t.location)

/-- An operation with one operand, whose sign comes next. -/
def signed (op : UnaryOp) (operand : Reading Expr) : Reading Expr := do
  let p ← here
  skip
  let e ← operand
  return .unary op e (← fresh p)

/-- More than the levels that can be open at once. A recursion that is bounded by this number
is stopped by the counter before it reaches its end. -/
def ample : Nat := maxNesting + 1

def operand : Nat → Reading Expr
  | 0 => fail [] "expression nested too deeply"
  | bound + 1 => nested "expression" do
    match ← peek with
    | .bang => signed .not (operand bound)
    | .minus => signed .neg (operand bound)
    | .leftParen => parenthesized (operation (operand bound) BinaryOp.topLevel)
    | .number => literal
    | .name => named (operation (operand bound) BinaryOp.topLevel)
    | _ => fail [.leftParen, .number, .bang, .minus, .name] "to start an expression"

def expression (bound : Nat) : Reading Expr := operation (operand bound) BinaryOp.topLevel

/-! ## Declarations -/

def baseType : Reading BaseType := do
  match ← peek with
  | .intWord => skip; return .int
  | .floatWord => skip; return .float
  | .voidWord => skip; return .void
  | _ => fail [.intWord, .floatWord, .voidWord] "as type name"

def parameter : Reading Param := do
  let type ← baseType
  let name ← expect .name "as parameter name"
  return ⟨name.lexeme, type, name.location⟩

def parameters : Reading (List Param) := do
  if (← peek).isType then separated parameter (← remaining) else return []

/-- A function whose type, name and opening parenthesis have been read. -/
def functionTail (body : Reading (List Stmt)) (type : BaseType) (name : Token) : Reading Stmt := do
  let params ← parameters
  let _ ← expect .rightParen "after parameters"
  let _ ← expect .leftBrace "before function body"
  let statements ← body
  let _ ← expect .rightBrace "after function body"
  return .declareFun name.lexeme type params statements name.location

/-- Variables of one type, the first of which has been named. -/
def declarators (expr : Reading Expr) (type : BaseType) : List Token → Token → Reading (List Stmt)
  | [], name => do
    let init ← optionally .equal expr
    return [.declareVar name.lexeme type init name.location]
  | _ :: bound, name => do
    let init ← optionally .equal expr
    let declared := Stmt.declareVar name.lexeme type init name.location
    if ← accept .comma then
      let name ← expect .name "after ','"
      return declared :: (← declarators expr type bound name)
    else return [declared]

def declaration (expr : Reading Expr) (body : Reading (List Stmt)) : Reading (List Stmt) := do
  let type ← baseType
  let name ← expect .name "after type name"
  if ← accept .leftParen then
    return [← functionTail body type name]
  let declared ← declarators expr type (← remaining) name
  let _ ← expect .semicolon "after variable declaration"
  return declared

/-! ## Statements -/

/-- What stands between braces, up to the closing one or the end of the tokens. -/
def itemsWithin (declaration : Reading (List Stmt)) (statement : Reading Stmt) :
    List Token → Reading (List Stmt)
  | [] => return []
  | _ :: bound => do
    let k ← peek
    if k = .rightBrace || (← remaining).isEmpty then return []
    else if k.isType then
      let declared ← declaration
      return declared ++ (← itemsWithin declaration statement bound)
    else if ← accept .semicolon then itemsWithin declaration statement bound
    else
      let s ← statement
      return s :: (← itemsWithin declaration statement bound)

def items (declaration : Reading (List Stmt)) (statement : Reading Stmt) :
    Reading (List Stmt) := do
  itemsWithin declaration statement (← remaining)

/-- An expression between parentheses, none of which has been read. -/
def enclosed (expr : Reading Expr) (before behind : String) : Reading Expr := do
  let _ ← expect .leftParen before
  let value ← expr
  let _ ← expect .rightParen behind
  return value

/-- An expression, or an omitted one where `terminator` comes next. -/
def clause (expr : Reading Expr) (terminator : Kind) : Reading Expr := do
  if (← peek) = terminator then return .omitted (← fresh (← here)) else expr

/-- A clause and the token that ends it. -/
def ended (expr : Reading Expr) (terminator : Kind) (context : String) : Reading Expr := do
  let value ← clause expr terminator
  let _ ← expect terminator context
  return value

def branch (expr : Reading Expr) (statement : Reading Stmt) (p : Location) : Reading Stmt := do
  skip
  let condition ← enclosed expr "after 'if'" "after if condition"
  let thenBody ← statement
  let elseBody ← optionally .elseWord statement
  return .branch condition thenBody elseBody p

def whileLoop (expr : Reading Expr) (statement : Reading Stmt) (p : Location) : Reading Stmt := do
  skip
  let condition ← enclosed expr "after 'while'" "after while condition"
  return .whileLoop condition (← statement) p

def forLoop (expr : Reading Expr) (statement : Reading Stmt) (p : Location) : Reading Stmt := do
  skip
  let _ ← expect .leftParen "after 'for'"
  let init ← ended expr .semicolon "after for initializer"
  let condition ← ended expr .semicolon "after for condition"
  let update ← ended expr .rightParen "after for clauses"
  return .forLoop init condition update (← statement) p

def ret (expr : Reading Expr) (p : Location) : Reading Stmt := do
  skip
  return .ret (← ended expr .semicolon "after return") p

def print (expr : Reading Expr) (p : Location) : Reading Stmt := do
  skip
  let value ← enclosed expr "after 'print'" "after print argument"
  let _ ← expect .semicolon "after print"
  return .print value p

/-- A statement, given the readers for its parts. -/
def statementWith (expr : Reading Expr) (declaration : Reading (List Stmt))
    (statement : Reading Stmt) : Reading Stmt := do
  let p ← here
  match ← peek with
  | .intWord | .floatWord | .voidWord => declared p <$> declaration
  | .semicolon =>
    skip
    return .expr (.omitted (← fresh p)) p
  | .leftBrace =>
    skip
    let body ← items declaration statement
    let _ ← expect .rightBrace "after block"
    return .block body p
  | .ifWord => branch expr statement p
  | .whileWord => whileLoop expr statement p
  | .forWord => forLoop expr statement p
  | .returnWord => ret expr p
  | .printWord => print expr p
  | _ =>
    let value ← expr
    let _ ← expect .semicolon "after expression"
    return .expr value p

mutual
def statement : Nat → Reading Stmt
  | 0 => fail [] "statement nested too deeply"
  | bound + 1 => nested "statement"
    (statementWith (expression bound) (declaration (expression bound) (functionBody bound))
      (statement bound))

def functionBody : Nat → Reading (List Stmt)
  | 0 => fail [] "function nested too deeply"
  | bound + 1 => nested "function"
    (items (declaration (expression bound) (functionBody bound)) (statement bound))
end

/-! ## Programs -/

/-- As many declarations as follow each other. -/
def declarations (declaration : Reading (List Stmt)) : List Token → Reading (List Stmt)
  | [] => return []
  | _ :: bound => do
    if (← peek).isType then
      let declared ← declaration
      return declared ++ (← declarations declaration bound)
    else return []

def program : Reading Program := do
  let nodes ← declarations (declaration (expression ample) (functionBody ample)) (← remaining)
  if (← remaining).isEmpty then return nodes
  else fail [.intWord, .floatWord, .voidWord, .eof] "at top level"

end Reading

namespace Reader

variable (r : Reader)

/-- The answer to the next call. -/
def answer : Except Mismatch Program :=
  match Reading.program r with
  | .ok nodes _ => .ok nodes
  | .error m _ => .error m

/-- The reader behind the next call. -/
def next : Reader :=
  match Reading.program r with
  | .ok _ s | .error _ s => s

end Reader
end Grammar
end MiniCheck
