import MiniCheck.Tree.Basic

/-!
# The names in a program

Variables and functions have names apart from each other. A statement mentions the names that
it declares and those that it uses.
-/

namespace MiniCheck

/-- Variables and functions are declared apart from each other. -/
inductive Symbol
  | ofVariable (name : String)
  | ofFunction (name : String)
deriving DecidableEq, Repr

namespace Symbol

def isFunction : Symbol → Bool
  | ofVariable _ => false
  | ofFunction _ => true

end Symbol

namespace Expr

mutual
/-- The variables that an expression reads or assigns and the functions that it calls. -/
def mentions : Expr → List Symbol
  | binary _ left right _ => left.mentions ++ right.mentions
  | unary _ operand _ => operand.mentions
  | assign name value _ => .ofVariable name :: value.mentions
  | var name _ => [.ofVariable name]
  | number _ _ | omitted _ => []
  | call name args _ => .ofFunction name :: allMentions args

def allMentions : List Expr → List Symbol
  | [] => []
  | e :: es => e.mentions ++ allMentions es
end

end Expr

namespace Stmt

mutual
/-- What a statement declares, its parameters and what is inside it included. -/
def declares : Stmt → List Symbol
  | declareVar name _ _ _ => [.ofVariable name]
  | declareFun name _ params body _ =>
    .ofFunction name :: ((params.map fun p => .ofVariable p.name) ++ allDeclares body)
  | block body _ => allDeclares body
  | branch _ thenBody none _ => thenBody.declares
  | branch _ thenBody (some elseBody) _ => thenBody.declares ++ elseBody.declares
  | whileLoop _ body _ | forLoop _ _ _ body _ => body.declares
  | ret _ _ | print _ _ | expr _ _ => []

def allDeclares : List Stmt → List Symbol
  | [] => []
  | s :: rest => s.declares ++ allDeclares rest
end

mutual
/-- What a statement declares or uses, its parameters and what is inside it included. -/
def mentions : Stmt → List Symbol
  | declareVar name _ none _ => [.ofVariable name]
  | declareVar name _ (some init) _ => .ofVariable name :: init.mentions
  | declareFun name _ params body _ =>
    .ofFunction name :: ((params.map fun p => .ofVariable p.name) ++ allMentions body)
  | block body _ => allMentions body
  | branch e thenBody none _ => e.mentions ++ thenBody.mentions
  | branch e thenBody (some elseBody) _ => e.mentions ++ (thenBody.mentions ++ elseBody.mentions)
  | whileLoop e body _ => e.mentions ++ body.mentions
  | forLoop init e update body _ =>
    init.mentions ++ (e.mentions ++ (update.mentions ++ body.mentions))
  | ret value _ | print value _ | expr value _ => value.mentions

def allMentions : List Stmt → List Symbol
  | [] => []
  | s :: rest => s.mentions ++ allMentions rest
end

mutual
theorem declares_sublist : (s : Stmt) → s.declares.Sublist s.mentions
  | declareVar name _ none _ | declareVar name _ (some _) _ => by
    simp only [declares, mentions]
    exact (List.nil_sublist _).cons_cons _
  | declareFun name _ params body _ => by
    simp only [declares, mentions]
    exact ((List.Sublist.refl _).append (allDeclares_sublist body)).cons_cons _
  | block body _ => by
    simp only [declares, mentions]
    exact allDeclares_sublist body
  | branch e thenBody none _ => by
    simp only [declares, mentions]
    exact (declares_sublist thenBody).trans (List.sublist_append_right _ _)
  | branch e thenBody (some elseBody) _ => by
    simp only [declares, mentions]
    exact ((declares_sublist thenBody).append (declares_sublist elseBody)).trans
      (List.sublist_append_right _ _)
  | whileLoop e body _ => by
    simp only [declares, mentions]
    exact (declares_sublist body).trans (List.sublist_append_right _ _)
  | forLoop init e update body _ => by
    simp only [declares, mentions, ← List.append_assoc]
    exact (declares_sublist body).trans (List.sublist_append_right _ _)
  | ret _ _ | print _ _ | expr _ _ => List.nil_sublist _

theorem allDeclares_sublist : (body : List Stmt) →
    (allDeclares body).Sublist (allMentions body)
  | [] => List.nil_sublist _
  | s :: rest => by
    simp only [allDeclares, allMentions]
    exact (declares_sublist s).append (allDeclares_sublist rest)
end

end Stmt
end MiniCheck
