import MiniCheck.Location

/-!
# Programs as trees

Every expression carries a mark, the number it got when it was read and the
place it points at: the operator of an operation, the name of an assignment or
a call. Statements have a place alone. An omitted expression, such as an
omitted loop clause, is a node of its own.
-/

namespace MiniCheck

/-- The types that a program can write. -/
inductive BaseType
  | int
  | float
  | void
deriving DecidableEq, Repr

inductive BinaryOp
  | add
  | sub
  | mul
  | div
  | mod
  | eq
  | ne
  | lt
  | le
  | gt
  | ge
  | and
  | or
deriving DecidableEq, Repr

inductive UnaryOp
  | neg
  | not
deriving DecidableEq, Repr

structure Mark where
  id : Nat
  location : Location
deriving DecidableEq, Repr

inductive Expr
  | binary (op : BinaryOp) (left right : Expr) (mark : Mark)
  | unary (op : UnaryOp) (operand : Expr) (mark : Mark)
  | assign (name : String) (value : Expr) (mark : Mark)
  | var (name : String) (mark : Mark)
  | number (lexeme : String) (mark : Mark)
  | omitted (mark : Mark)
  | call (name : String) (args : List Expr) (mark : Mark)
deriving Repr

structure Param where
  name : String
  type : BaseType
  location : Location
deriving DecidableEq, Repr

inductive Stmt
  | declareVar (name : String) (type : BaseType) (init : Option Expr) (location : Location)
  | declareFun (name : String) (returns : BaseType) (params : List Param) (body : List Stmt)
      (location : Location)
  | block (body : List Stmt) (location : Location)
  | branch (condition : Expr) (thenBody : Stmt) (elseBody : Option Stmt) (location : Location)
  | whileLoop (condition : Expr) (body : Stmt) (location : Location)
  | forLoop (init condition update : Expr) (body : Stmt) (location : Location)
  | ret (value : Expr) (location : Location)
  | print (value : Expr) (location : Location)
  | expr (value : Expr) (location : Location)
deriving Repr

abbrev Program := List Stmt

namespace BaseType

def name : BaseType → String
  | int => "int"
  | float => "float"
  | void => "void"

end BaseType

namespace BinaryOp

def symbol : BinaryOp → String
  | add => "+"
  | sub => "-"
  | mul => "*"
  | div => "/"
  | mod => "%"
  | eq => "=="
  | ne => "!="
  | lt => "<"
  | le => "<="
  | gt => ">"
  | ge => ">="
  | and => "&&"
  | or => "||"

/-- How loosely an operator binds: operands of one level are made of tighter ones. -/
def level : BinaryOp → Nat
  | mul | div | mod => 1
  | add | sub => 2
  | lt | le | gt | ge => 3
  | eq | ne => 4
  | and => 5
  | or => 6

/-- The loosest level of all. -/
def topLevel : Nat := 6

theorem level_pos (op : BinaryOp) : 0 < op.level := by
  cases op <;> decide

theorem level_le_topLevel (op : BinaryOp) : op.level ≤ topLevel := by
  cases op <;> decide

end BinaryOp

namespace UnaryOp

def symbol : UnaryOp → String
  | neg => "-"
  | not => "!"

end UnaryOp

namespace Expr

def mark : Expr → Mark
  | binary _ _ _ m | unary _ _ m | assign _ _ m | var _ m | number _ m | omitted m | call _ _ m => m

def location (e : Expr) : Location := e.mark.location

def isOmitted : Expr → Bool
  | omitted _ => true
  | _ => false

end Expr

namespace Stmt

def location : Stmt → Location
  | declareVar _ _ _ p | declareFun _ _ _ _ p | block _ p | branch _ _ _ p | whileLoop _ _ p
  | forLoop _ _ _ _ p | ret _ p | print _ p | expr _ p => p

end Stmt
end MiniCheck
