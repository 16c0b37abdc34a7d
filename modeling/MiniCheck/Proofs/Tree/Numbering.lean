import MiniCheck.Tree.Basic

/-!
# The numbers of the expressions of a tree

Expressions are listed after those inside them, from the left to the right.
-/

namespace MiniCheck

namespace Expr

mutual
def ids : Expr → List Nat
  | binary _ left right m => left.ids ++ right.ids ++ [m.id]
  | unary _ operand m => operand.ids ++ [m.id]
  | assign _ value m => value.ids ++ [m.id]
  | var _ m | number _ m | omitted m => [m.id]
  | call _ args m => allIds args ++ [m.id]

def allIds : List Expr → List Nat
  | [] => []
  | e :: es => e.ids ++ allIds es
end

/-- Nothing for an omitted clause. -/
def idsIfGiven (e : Expr) : List Nat := if e.isOmitted then [] else e.ids

theorem idsIfGiven_sublist (e : Expr) : e.idsIfGiven.Sublist e.ids := by
  unfold idsIfGiven
  split
  · exact List.nil_sublist _
  · exact List.Sublist.refl _

end Expr

namespace Stmt

section

variable (clause : Expr → List Nat)

mutual
/-- The numbers inside a statement, where `clause` tells which a loop clause adds. -/
def idsBy : Stmt → List Nat
  | declareVar _ _ none _ => []
  | declareVar _ _ (some init) _ => init.ids
  | declareFun _ _ _ body _ | block body _ => allIdsBy body
  | branch e thenBody none _ => e.ids ++ thenBody.idsBy
  | branch e thenBody (some elseBody) _ => e.ids ++ thenBody.idsBy ++ elseBody.idsBy
  | whileLoop e body _ => e.ids ++ body.idsBy
  | forLoop init e update body _ => clause init ++ clause e ++ clause update ++ body.idsBy
  | ret value _ | print value _ | expr value _ => value.ids

def allIdsBy : List Stmt → List Nat
  | [] => []
  | s :: rest => s.idsBy ++ allIdsBy rest
end

theorem allIdsBy_append (body rest : List Stmt) :
    allIdsBy clause (body ++ rest) = allIdsBy clause body ++ allIdsBy clause rest := by
  induction body with
  | nil => rfl
  | cons s body ih => simp only [List.cons_append, allIdsBy, ih, List.append_assoc]

end

mutual
theorem idsBy_sublist {few all : Expr → List Nat} (h : ∀ e, (few e).Sublist (all e)) :
    (s : Stmt) → (s.idsBy few).Sublist (s.idsBy all)
  | declareVar _ _ none _ | declareVar _ _ (some _) _ | ret _ _ | print _ _ | expr _ _ => by
    simp only [idsBy]
    exact List.Sublist.refl _
  | declareFun _ _ _ body _ | block body _ => by
    simp only [idsBy]
    exact allIdsBy_sublist h body
  | branch e thenBody none _ => by
    simp only [idsBy]
    exact (List.Sublist.refl _).append (idsBy_sublist h thenBody)
  | branch e thenBody (some elseBody) _ => by
    simp only [idsBy]
    exact ((List.Sublist.refl _).append (idsBy_sublist h thenBody)).append
      (idsBy_sublist h elseBody)
  | whileLoop e body _ => by
    simp only [idsBy]
    exact (List.Sublist.refl _).append (idsBy_sublist h body)
  | forLoop init e update body _ => by
    simp only [idsBy]
    exact (((h init).append (h e)).append (h update)).append (idsBy_sublist h body)

theorem allIdsBy_sublist {few all : Expr → List Nat} (h : ∀ e, (few e).Sublist (all e)) :
    (body : List Stmt) → (allIdsBy few body).Sublist (allIdsBy all body)
  | [] => by
    simp only [allIdsBy]
    exact List.Sublist.refl _
  | s :: rest => by
    simp only [allIdsBy]
    exact (idsBy_sublist h s).append (allIdsBy_sublist h rest)
end

end Stmt

namespace Program

variable (p : Program)

/-- The numbers of all expressions. -/
def ids : List Nat := Stmt.allIdsBy Expr.ids p

/-- The numbers of the expressions that are given: all but omitted loop clauses. -/
def givenIds : List Nat := Stmt.allIdsBy Expr.idsIfGiven p

theorem givenIds_sublist : (givenIds p).Sublist (ids p) :=
  Stmt.allIdsBy_sublist Expr.idsIfGiven_sublist p

end Program
end MiniCheck
