import MiniCheck.Tree.Basic

/-!
# Well-formed programs

Not every tree is one that a text could stand for. Expressions are omitted as a whole or not
at all, and only where a clause may be left out. A statement of which nothing is left may
only be the body of a branch or a loop, and an `else` has to find its own `if`.
-/

namespace MiniCheck

namespace Expr

mutual
/-- No part of the expression is omitted. -/
def Complete : Expr → Prop
  | binary _ left right _ => left.Complete ∧ right.Complete
  | unary _ operand _ => operand.Complete
  | assign _ value _ => value.Complete
  | var _ _ | number _ _ => True
  | omitted _ => False
  | call _ args _ => AllComplete args

def AllComplete : List Expr → Prop
  | [] => True
  | e :: es => e.Complete ∧ AllComplete es
end

theorem isOmitted_of_complete {e : Expr} (h : e.Complete) : e.isOmitted = false := by
  cases e with
  | omitted m => cases h
  | _ => rfl

/-- The expression may be left out, but only as a whole. -/
def IsClause (e : Expr) : Prop := e.isOmitted = true ∨ e.Complete

end Expr

namespace Stmt

/-- Whether the statement ends in an `if` without an `else`. -/
def dangles : Stmt → Bool
  | branch _ _ none _ => true
  | branch _ _ (some elseBody) _ => elseBody.dangles
  | whileLoop _ body _ => body.dangles
  | forLoop _ _ _ body _ => body.dangles
  | declareVar _ _ _ _ | declareFun _ _ _ _ _ | block _ _ | ret _ _ | print _ _ | expr _ _ => false

/-- Whether nothing is left of the statement. -/
def isEmpty : Stmt → Bool
  | expr value _ => value.isOmitted
  | _ => false

def isDeclaration : Stmt → Bool
  | declareVar _ _ _ _ | declareFun _ _ _ _ _ => true
  | _ => false

mutual
def WellFormed : Stmt → Prop
  | declareVar _ _ init _ => ∀ value ∈ init, value.Complete
  | declareFun _ _ _ body _ | block body _ => AllWellFormed body
  | branch e thenBody none _ => e.Complete ∧ thenBody.WellFormed
  | branch e thenBody (some elseBody) _ =>
    e.Complete ∧ thenBody.WellFormed ∧ thenBody.dangles = false ∧ elseBody.WellFormed
  | whileLoop e body _ => e.Complete ∧ body.WellFormed
  | forLoop init e update body _ =>
    init.IsClause ∧ e.IsClause ∧ update.IsClause ∧ body.WellFormed
  | ret value _ => value.IsClause
  | print value _ => value.Complete
  | expr value _ => value.IsClause

/-- The statements may stand one after the other in a block or the body of a function. -/
def AllWellFormed : List Stmt → Prop
  | [] => True
  | s :: rest => s.isEmpty = false ∧ s.WellFormed ∧ AllWellFormed rest
end

theorem isEmpty_of_isDeclaration {s : Stmt} (h : s.isDeclaration = true) : s.isEmpty = false := by
  cases s with
  | expr value p => cases h
  | _ => rfl

theorem dangles_of_isDeclaration {s : Stmt} (h : s.isDeclaration = true) :
    s.dangles = false := by
  cases s with
  | declareVar name type init p => rfl
  | declareFun name returns params body p => rfl
  | _ => cases h

theorem allWellFormed_append {ss rest : List Stmt} (h : AllWellFormed ss)
    (hrest : AllWellFormed rest) : AllWellFormed (ss ++ rest) := by
  induction ss with
  | nil => exact hrest
  | cons s ss ih => exact ⟨h.1, h.2.1, ih h.2.2⟩

end Stmt

namespace Program

/-- The program consists of declarations, and each of them is well-formed. -/
def WellFormed (p : Program) : Prop := ∀ s ∈ p, s.isDeclaration = true ∧ s.WellFormed

variable {p q : Program}

theorem WellFormed.append (h : WellFormed p) (h' : WellFormed q) : WellFormed (p ++ q) := by
  intro s hs
  rcases List.mem_append.mp hs with hs | hs
  · exact h s hs
  · exact h' s hs

/-- Declarations may stand in a block too. -/
theorem WellFormed.allWellFormed (h : WellFormed p) : Stmt.AllWellFormed p := by
  induction p with
  | nil => trivial
  | cons s p ih =>
    obtain ⟨hdeclaration, hs⟩ := h s List.mem_cons_self
    exact ⟨Stmt.isEmpty_of_isDeclaration hdeclaration, hs, ih fun t ht => h t (.tail s ht)⟩

end Program
end MiniCheck
