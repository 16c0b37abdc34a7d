import MiniCheck.Grammar.Expr

/-!
# Declarations, statements and programs

A program is a list of declarations. A declaration of several variables gives a
statement for each; where only one statement can stand they are wrapped into a
block. A semicolon alone is dropped inside braces and is an omitted expression
elsewhere. An `else` belongs to the nearest `if` that has none.

A statement and the body of a function each open a nesting level, from the same
budget as the operands of expressions.
-/

namespace MiniCheck
namespace Grammar

open Grammar.Parser

/-- How many nesting levels may be open at once. -/
def maxNesting : Nat := 64

def baseType : Parser BaseType := do
  match ← peek with
  | .intWord => skip; return .int
  | .floatWord => skip; return .float
  | .voidWord => skip; return .void
  | _ => fail [.intWord, .floatWord, .voidWord] "as type name"

def parameter : Parser Param := do
  let type ← baseType
  let name ← expect .name "as parameter name"
  return ⟨name.lexeme, type, name.location⟩

def parameters : Parser (List Param) := do
  if (← peek).isType then separated parameter (← remaining) else return []

/-- A function whose type, name and opening parenthesis have been read. -/
def functionTail (body : Parser (List Stmt)) (type : BaseType) (name : Token) : Parser Stmt := do
  let params ← parameters
  let _ ← expect .rightParen "after parameters"
  let _ ← expect .leftBrace "before function body"
  let statements ← body
  let _ ← expect .rightBrace "after function body"
  return .declareFun name.lexeme type params statements name.location

/-- Variables of one type, the first of which has been named. The bound serves as in
`separated`. -/
def declarators (expr : Parser Expr) (type : BaseType) : List Token → Token → Parser (List Stmt)
  | bound, name => do
    let init ← if ← accept .equal then some <$> expr else pure none
    let declared := Stmt.declareVar name.lexeme type init name.location
    match bound with
    | [] => return [declared]
    | _ :: bound =>
      if ← accept .comma then
        let name ← expect .name "after ','"
        return declared :: (← declarators expr type bound name)
      else return [declared]

def declaration (expr : Parser Expr) (body : Parser (List Stmt)) : Parser (List Stmt) := do
  let type ← baseType
  let name ← expect .name "after type name"
  if ← accept .leftParen then
    return [← functionTail body type name]
  let declared ← declarators expr type (← remaining) name
  let _ ← expect .semicolon "after variable declaration"
  return declared

/-- What stands between braces, up to the closing one or the end of the tokens. The
bound serves as in `separated`. -/
def itemsWithin (declaration : Parser (List Stmt)) (statement : Parser Stmt) :
    List Token → Parser (List Stmt)
  | [] => return []
  | _ :: bound => do
    let k ← peek
    if k = .rightBrace || (← remaining).isEmpty then return []
    else if k.isType then
      let declared ← declaration
      return declared ++ (← itemsWithin declaration statement bound)
    else if ← accept .semicolon then itemsWithin declaration statement bound
    else
      let s ← statement
      return s :: (← itemsWithin declaration statement bound)

def items (declaration : Parser (List Stmt)) (statement : Parser Stmt) : Parser (List Stmt) := do
  itemsWithin declaration statement (← remaining)

/-- An expression, or an omitted one where `terminator` comes next. -/
def clause (expr : Parser Expr) (terminator : Token.Kind) : Parser Expr := do
  if (← peek) = terminator then return .omitted (← fresh (← here)) else expr

def branch (expr : Parser Expr) (statement : Parser Stmt) (p : Location) : Parser Stmt := do
  skip
  let _ ← expect .leftParen "after 'if'"
  let condition ← expr
  let _ ← expect .rightParen "after if condition"
  let thenBody ← statement
  let elseBody ← if ← accept .elseWord then some <$> statement else pure none
  return .branch condition thenBody elseBody p

def whileLoop (expr : Parser Expr) (statement : Parser Stmt) (p : Location) : Parser Stmt := do
  skip
  let _ ← expect .leftParen "after 'while'"
  let condition ← expr
  let _ ← expect .rightParen "after while condition"
  return .whileLoop condition (← statement) p

def forLoop (expr : Parser Expr) (statement : Parser Stmt) (p : Location) : Parser Stmt := do
  skip
  let _ ← expect .leftParen "after 'for'"
  let init ← clause expr .semicolon
  let _ ← expect .semicolon "after for initializer"
  let condition ← clause expr .semicolon
  let _ ← expect .semicolon "after for condition"
  let update ← clause expr .rightParen
  let _ ← expect .rightParen "after for clauses"
  return .forLoop init condition update (← statement) p

def ret (expr : Parser Expr) (p : Location) : Parser Stmt := do
  skip
  let value ← clause expr .semicolon
  let _ ← expect .semicolon "after return"
  return .ret value p

def print (expr : Parser Expr) (p : Location) : Parser Stmt := do
  skip
  let _ ← expect .leftParen "after 'print'"
  let value ← expr
  let _ ← expect .rightParen "after print argument"
  let _ ← expect .semicolon "after print"
  return .print value p

/-- A declaration where one statement has to stand. -/
def declared (p : Location) : List Stmt → Stmt
  | [s] => s
  | ss => .block ss p

/-- A statement at `p`, given the parsers for its parts. -/
def statementWith (expr : Parser Expr) (declaration : Parser (List Stmt))
    (statement : Parser Stmt) : Parser Stmt := do
  let p ← here
  match ← peek with
  | .intWord | .floatWord | .voidWord => declared p <$> declaration
  | .semicolon =>
    skip
    return .expr (.omitted (← fresh p)) p
  | .leftBrace =>
    skip
    let body ← items declaration statement
    let _ ← expect .rightBrace "after block"
    return .block body p
  | .ifWord => branch expr statement p
  | .whileWord => whileLoop expr statement p
  | .forWord => forLoop expr statement p
  | .returnWord => ret expr p
  | .printWord => print expr p
  | _ =>
    let value ← expr
    let _ ← expect .semicolon "after expression"
    return .expr value p

mutual
/-- A statement that may open `depth` nesting levels, the first of them its own. -/
def statement : Nat → Parser Stmt
  | 0 => fail [] "statement nested too deeply"
  | depth + 1 =>
    statementWith (expression depth) (declaration (expression depth) (functionBody depth))
      (statement depth)

/-- The body of a function, which counts as a nesting level like a statement. -/
def functionBody : Nat → Parser (List Stmt)
  | 0 => fail [] "function nested too deeply"
  | depth + 1 =>
    items (declaration (expression depth) (functionBody depth)) (statement depth)
end

/-- As many declarations as follow each other. The bound serves as in `separated`. -/
def declarations (declaration : Parser (List Stmt)) : List Token → Parser (List Stmt)
  | [] => return []
  | _ :: bound => do
    if (← peek).isType then
      let declared ← declaration
      return declared ++ (← declarations declaration bound)
    else return []

def program : Parser Program := do
  let nodes ← declarations (declaration (expression maxNesting) (functionBody maxNesting))
    (← remaining)
  if (← remaining).isEmpty then return nodes
  else fail [.intWord, .floatWord, .voidWord, .eof] "at top level"

end Grammar

namespace Program

/-- The program that the tokens make up. -/
def ofTokens (ts : List Token) : Except Grammar.Mismatch Program :=
  match Grammar.program (.ofTokens ts) with
  | .ok nodes _ => .ok nodes
  | .error m _ => .error m

end Program
end MiniCheck
