import MiniCheck.Text.Layout
import MiniCheck.Tree.Basic

/-!
# One-line summaries

An expression is written out whole, except that a call shows only how many
arguments it has. A statement shows the expressions it holds itself and counts
its parts.
-/

namespace MiniCheck

namespace Expr

/-- Writes the summary behind `text`. -/
def write (text : String) : Expr → String
  | binary op left right _ =>
    (right.write ((left.write (text ++ "BinaryOp(")) ++ " " ++ op.symbol ++ " ")) ++ ")"
  | unary op operand _ => (operand.write (text ++ "UnaryOp(" ++ op.symbol)) ++ ")"
  | assign name value _ => (value.write (text ++ "Assign(" ++ name ++ " = ")) ++ ")"
  | var name _ => text ++ "Var(" ++ name ++ ")"
  | number lexeme _ => text ++ "Num(" ++ lexeme ++ ")"
  | omitted _ => text ++ "EmptyExpr()"
  | call name args _ => text ++ "FuncCall(" ++ name ++ ", " ++ toString args.length ++ " args)"

def summary (e : Expr) : String := e.write ""

theorem write_eq : ∀ (e : Expr) (text : String), e.write text = text ++ e.summary
  | binary op left right m, text => by
    simp only [summary, write]
    rw [write_eq left (text ++ _), write_eq left ("" ++ _),
      write_eq right (text ++ _ ++ _ ++ _ ++ _ ++ _), write_eq right (_ ++ _ ++ _ ++ _ ++ _)]
    simp [String.append_assoc]
  | unary op operand m, text => by
    simp only [summary, write]
    rw [write_eq operand (text ++ _ ++ _), write_eq operand ("" ++ _ ++ _)]
    simp [String.append_assoc]
  | assign name value m, text => by
    simp only [summary, write]
    rw [write_eq value (text ++ _ ++ _ ++ _), write_eq value ("" ++ _ ++ _ ++ _)]
    simp [String.append_assoc]
  | var name m, text => by simp [summary, write, String.append_assoc]
  | number lexeme m, text => by simp [summary, write, String.append_assoc]
  | omitted m, text => by simp [summary, write]
  | call name args m, text => by simp [summary, write, String.append_assoc]

theorem summary_binary (op : BinaryOp) (left right : Expr) (m : Mark) :
    (binary op left right m).summary =
      s!"BinaryOp({left.summary} {op.symbol} {right.summary})" := by
  rw [summary, write, write_eq right, write_eq left]
  simp [String.append_assoc, toString]

theorem summary_unary (op : UnaryOp) (operand : Expr) (m : Mark) :
    (unary op operand m).summary = s!"UnaryOp({op.symbol}{operand.summary})" := by
  rw [summary, write, write_eq operand]
  simp [String.append_assoc, toString]

theorem summary_assign (name : String) (value : Expr) (m : Mark) :
    (assign name value m).summary = s!"Assign({name} = {value.summary})" := by
  rw [summary, write, write_eq value]
  simp [String.append_assoc, toString]

end Expr

namespace Param

def summary (p : Param) : String := s!"Param({p.type.name} {p.name})"

end Param

namespace Stmt

def summary : Stmt → String
  | declareVar name type (some init) _ => s!"VarDecl({type.name} {name}, init={init.summary})"
  | declareVar name type none _ => s!"VarDecl({type.name} {name})"
  | declareFun name returns params _ _ =>
    s!"FuncDecl({returns.name} {name}, {params.length} params)"
  | block body _ => s!"Block({body.length} statements)"
  | branch condition _ _ _ => s!"If(cond={condition.summary})"
  | whileLoop condition _ _ => s!"While(cond={condition.summary})"
  | forLoop init condition _ _ _ => s!"For(init={init.summary}, cond={condition.summary})"
  | ret value _ => s!"Return({value.summary})"
  | print value _ => s!"Print({value.summary})"
  | expr value _ => s!"ExprStmt({value.summary})"

/-- The summaries of a statement and of all that it contains, in reading order. -/
def digest : Stmt → List String
  | s@(declareVar ..) => [s.summary]
  | s@(declareFun _ _ params body _) => s.summary :: (params.map Param.summary ++ digestAll body)
  | s@(block body _) => s.summary :: digestAll body
  | s@(branch _ thenBody none _) => s.summary :: thenBody.digest
  | s@(branch _ thenBody (some elseBody) _) => s.summary :: (thenBody.digest ++ elseBody.digest)
  | s@(whileLoop _ body _) => s.summary :: body.digest
  | s@(forLoop _ _ update body _) => s.summary :: update.summary :: body.digest
  | s@(ret ..) => [s.summary]
  | s@(print ..) => [s.summary]
  | s@(expr ..) => [s.summary]
where
  digestAll : List Stmt → List String
    | [] => []
    | s :: rest => s.digest ++ digestAll rest

end Stmt

namespace Program

def summary (p : Program) : String := s!"Program({p.length} declarations)"

/-- The summary of the whole, then an indented line for each statement at the top. -/
def outline (p : Program) : String :=
  Text.lines (summary p :: p.map fun s => "  " ++ s.summary)

def digest (p : Program) : List String := summary p :: p.flatMap Stmt.digest

end Program
end MiniCheck
