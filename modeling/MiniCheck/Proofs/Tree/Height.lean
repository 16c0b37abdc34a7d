import MiniCheck.Tree.Basic

/-!
# How high expressions are

Whoever goes down an expression, to write it out or to type it, goes as deep as the tree is
high. Apart from the height itself there are two numbers that make it up: how often a way
down leaves the left edge, and how many operations at most follow each other along that edge.
-/

namespace MiniCheck

namespace Expr

mutual
/-- How many expressions lie within each other, the outermost and the innermost counted. -/
def height : Expr → Nat
  | binary _ left right _ => max left.height right.height + 1
  | unary _ operand _ => operand.height + 1
  | assign _ value _ => value.height + 1
  | var _ _ | number _ _ | omitted _ => 1
  | call _ args _ => maxHeight args + 1

def maxHeight : List Expr → Nat
  | [] => 0
  | e :: es => max e.height (maxHeight es)
end

mutual
/-- The height if a left operand is not counted as lying within its operation. -/
def turns : Expr → Nat
  | binary _ left right _ => max left.turns (right.turns + 1)
  | unary _ operand _ => operand.turns + 1
  | assign _ value _ => value.turns + 1
  | var _ _ | number _ _ | omitted _ => 1
  | call _ args _ => maxTurns args + 1

def maxTurns : List Expr → Nat
  | [] => 0
  | e :: es => max e.turns (maxTurns es)
end

/-- How many operations each have the next one as their left operand. -/
def leftRun : Expr → Nat
  | binary _ left _ _ => left.leftRun + 1
  | _ => 0

mutual
/-- The longest run of left operands anywhere inside. -/
def longestRun : Expr → Nat
  | binary _ left right _ => max (left.leftRun + 1) (max left.longestRun right.longestRun)
  | unary _ operand _ => operand.longestRun
  | assign _ value _ => value.longestRun
  | var _ _ | number _ _ | omitted _ => 0
  | call _ args _ => maxLongestRun args

def maxLongestRun : List Expr → Nat
  | [] => 0
  | e :: es => max e.longestRun (maxLongestRun es)
end

theorem leftRun_le_longestRun (e : Expr) : e.leftRun ≤ e.longestRun := by
  cases e with
  | binary op left right m => exact Nat.le_max_left _ _
  | _ => exact Nat.zero_le _

mutual
/-- Between two turns a way down passes at most `k` left operands, so each turn adds at most
`k + 1` to the height. At the root the run has not come to its end yet. -/
theorem height_add_le {k : Nat} : (e : Expr) → e.longestRun ≤ k →
    e.height + k ≤ e.turns * (k + 1) + e.leftRun
  | binary op left right m, h => by
    simp only [longestRun, Nat.max_le] at h
    obtain ⟨_, hl, hr⟩ := h
    have hleft := height_add_le left hl
    have hright := height_add_le right hr
    have hrun := right.leftRun_le_longestRun
    have hturns := Nat.mul_le_mul_right (k + 1) (Nat.le_max_left left.turns (right.turns + 1))
    have hturns' := Nat.mul_le_mul_right (k + 1) (Nat.le_max_right left.turns (right.turns + 1))
    rw [Nat.succ_mul] at hturns'
    simp only [height, turns, leftRun]
    omega
  | unary op operand m, h => by
    have hoperand := height_add_le operand h
    have hrun := operand.leftRun_le_longestRun
    simp only [longestRun] at h
    simp only [height, turns, leftRun, Nat.succ_mul]
    omega
  | assign name value m, h => by
    have hvalue := height_add_le value h
    have hrun := value.leftRun_le_longestRun
    simp only [longestRun] at h
    simp only [height, turns, leftRun, Nat.succ_mul]
    omega
  | var name m, _ | number lexeme m, _ | omitted m, _ => by
    simp only [height, turns, leftRun]
    omega
  | call name args m, h => by
    have hargs := maxHeight_le args h
    simp only [height, turns, leftRun, Nat.succ_mul]
    omega

theorem maxHeight_le {k : Nat} : (es : List Expr) → maxLongestRun es ≤ k →
    maxHeight es ≤ maxTurns es * (k + 1)
  | [], _ => Nat.zero_le _
  | e :: es, h => by
    simp only [maxLongestRun, Nat.max_le] at h
    obtain ⟨he, hes⟩ := h
    have hhead := height_add_le e he
    have hrun := e.leftRun_le_longestRun
    have htail := maxHeight_le es hes
    have hturns := Nat.mul_le_mul_right (k + 1) (Nat.le_max_left e.turns (maxTurns es))
    have hturns' := Nat.mul_le_mul_right (k + 1) (Nat.le_max_right e.turns (maxTurns es))
    simp only [maxHeight, maxTurns]
    omega
end

theorem height_le_turns_mul (e : Expr) : e.height ≤ e.turns * (e.longestRun + 1) := by
  have hheight := e.height_add_le (Nat.le_refl _)
  have hrun := e.leftRun_le_longestRun
  omega

end Expr

namespace Stmt

mutual
/-- The expressions that a statement holds and those that the statements inside it hold, each
as a whole. -/
def exprs : Stmt → List Expr
  | declareVar _ _ init _ => init.toList
  | declareFun _ _ _ body _ | block body _ => allExprs body
  | branch e thenBody none _ => e :: thenBody.exprs
  | branch e thenBody (some elseBody) _ => e :: (thenBody.exprs ++ elseBody.exprs)
  | whileLoop e body _ => e :: body.exprs
  | forLoop init e update body _ => init :: e :: update :: body.exprs
  | ret value _ | print value _ | expr value _ => [value]

def allExprs : List Stmt → List Expr
  | [] => []
  | s :: rest => s.exprs ++ allExprs rest
end

@[simp] theorem allExprs_append (body rest : List Stmt) :
    allExprs (body ++ rest) = allExprs body ++ allExprs rest := by
  induction body with
  | nil => rfl
  | cons s body ih => simp only [List.cons_append, allExprs, ih, List.append_assoc]

end Stmt

/-- The expressions of a program, each as a whole. -/
def Program.exprs (p : Program) : List Expr := Stmt.allExprs p

end MiniCheck
