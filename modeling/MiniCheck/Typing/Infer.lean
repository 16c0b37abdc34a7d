import MiniCheck.Typing.SymbolTable

/-!
# Typing expressions

An expression is typed against a fixed symbol table. Each expression that is
looked at gets its type recorded after those inside it; what follows a missing
declaration, that is the value of an assignment or the arguments of a call, is
not looked at, and neither are arguments that are too few or too many.
-/

namespace MiniCheck

/-- What a check has found so far, the latest first. -/
structure Findings where
  diagnostics : List Diagnostic
  types : List (Nat × Ty)
deriving DecidableEq, Repr

namespace Findings

def nothing : Findings := ⟨[], []⟩

def report (fault : Fault) (p : Location) : StateM Findings Unit :=
  modify fun f => { f with diagnostics := ⟨fault, p⟩ :: f.diagnostics }

/-- Records the type of an expression and answers with it. -/
def record (m : Mark) (t : Ty) : StateM Findings Ty :=
  modifyGet fun f => (t, { f with types := (m.id, t) :: f.types })

end Findings

namespace BinaryOp

def isArithmetic : BinaryOp → Bool
  | add | sub | mul | div | mod => true
  | _ => false

def isLogical : BinaryOp → Bool
  | and | or => true
  | _ => false

end BinaryOp

namespace Typing

open Findings

/-- The type of an operation on operands of the given types. -/
def operation (op : BinaryOp) (left right : Ty) (p : Location) : StateM Findings Ty := do
  if op.isLogical then return .bool
  let numeric := left.isNumeric && right.isNumeric
  if !numeric then report (.operands op left right) p
  if op.isArithmetic then
    return if numeric then .arithmetic left right else .unknown
  return .bool

def prefixed (op : UnaryOp) (found : Ty) (p : Location) : StateM Findings Ty := do
  match op with
  | .not => return .bool
  | .neg =>
    if found.isNumeric then return found
    report (.negation found) p
    return .unknown

mutual
def infer (table : SymbolTable) : Expr → StateM Findings Ty
  | .binary op left right m => do
    let l ← infer table left
    let r ← infer table right
    record m (← operation op l r m.location)
  | .unary op operand m => do
    let found ← infer table operand
    record m (← prefixed op found m.location)
  | .assign name value m => do
    match table.typeOf? name with
    | none =>
      report (.undeclaredVariable name) m.location
      record m .unknown
    | some target =>
      let found ← infer table value
      unless Ty.accepts target found do report (.assignment name target found) m.location
      record m target
  | .var name m => do
    match table.typeOf? name with
    | none =>
      report (.undeclaredVariable name) m.location
      record m .unknown
    | some type => record m type
  | .number lexeme m => record m (.ofLiteral lexeme)
  | .omitted m => record m .void
  | .call name args m => do
    match table.signatureOf? name with
    | none =>
      report (.undeclaredFunction name) m.location
      record m .unknown
    | some signature =>
      if args.length = signature.params.length then
        inferArguments table name 1 args signature.params
      else report (.argumentCount name signature.params.length args.length) m.location
      record m signature.returns

/-- Types arguments, the first of which has the given position, against parameters. -/
def inferArguments (table : SymbolTable) (function : String) :
    Nat → List Expr → List BaseType → StateM Findings Unit
  | position, arg :: args, param :: params => do
    let found ← infer table arg
    unless Ty.accepts param found do
      report (.argument function position param found) arg.location
    inferArguments table function (position + 1) args params
  | _, _, _ => return ()
end

end Typing
end MiniCheck
