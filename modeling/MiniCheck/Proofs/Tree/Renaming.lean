import Mathlib.Logic.Function.Defs
import MiniCheck.Proofs.Tree.Relabelling

/-!
# New names

A renaming gives every variable and every function another name, apart from each other, and
everything new labels as well.
-/

namespace MiniCheck

structure Renaming where
  ofVariable : String → String
  ofFunction : String → String
  labels : Relabelling

namespace Renaming

/-- The names stay as they are. -/
def ofLabels (r : Relabelling) : Renaming := ⟨fun name => name, fun name => name, r⟩

/-- Different names stay different, of variables among themselves and of functions. -/
structure Injective (ρ : Renaming) : Prop where
  ofVariable : Function.Injective ρ.ofVariable
  ofFunction : Function.Injective ρ.ofFunction

theorem injective_ofLabels (r : Relabelling) : (ofLabels r).Injective :=
  ⟨fun _ _ h => h, fun _ _ h => h⟩

end Renaming

/-- What has names, or at least could have. -/
class Named (α : Type) where
  rename : Renaming → α → α

export Named (rename)

section Instances

variable {α : Type} (ρ : Renaming)

instance [Named α] : Named (List α) := ⟨fun ρ as => as.map (rename ρ)⟩

instance [Named α] : Named (Option α) := ⟨fun ρ o => o.map (rename ρ)⟩

@[simp] theorem rename_cons [Named α] (a : α) (as : List α) :
    rename ρ (a :: as) = rename ρ a :: rename ρ as := rfl

@[simp] theorem length_rename [Named α] (as : List α) : (rename ρ as).length = as.length :=
  List.length_map _

@[simp] theorem rename_some [Named α] (a : α) : rename ρ (some a) = some (rename ρ a) := rfl

end Instances

instance : Named Param := ⟨fun ρ p => ⟨ρ.ofVariable p.name, p.type, ρ.labels.place p.location⟩⟩

namespace Expr

mutual
def rename (ρ : Renaming) : Expr → Expr
  | binary op left right m =>
    binary op (left.rename ρ) (right.rename ρ) (Labelled.relabel ρ.labels m)
  | unary op operand m => unary op (operand.rename ρ) (Labelled.relabel ρ.labels m)
  | assign name value m => assign (ρ.ofVariable name) (value.rename ρ) (Labelled.relabel ρ.labels m)
  | var name m => var (ρ.ofVariable name) (Labelled.relabel ρ.labels m)
  | number lexeme m => number lexeme (Labelled.relabel ρ.labels m)
  | omitted m => omitted (Labelled.relabel ρ.labels m)
  | call name args m => call (ρ.ofFunction name) (renameAll ρ args) (Labelled.relabel ρ.labels m)

def renameAll (ρ : Renaming) : List Expr → List Expr
  | [] => []
  | e :: es => e.rename ρ :: renameAll ρ es
end

end Expr

instance : Named Expr := ⟨Expr.rename⟩

namespace Stmt

mutual
def rename (ρ : Renaming) : Stmt → Stmt
  | declareVar name type init p =>
    declareVar (ρ.ofVariable name) type (Named.rename ρ init) (ρ.labels.place p)
  | declareFun name returns params body p =>
    declareFun (ρ.ofFunction name) returns (Named.rename ρ params) (renameAll ρ body)
      (ρ.labels.place p)
  | block body p => block (renameAll ρ body) (ρ.labels.place p)
  | branch e thenBody none p =>
    branch (Named.rename ρ e) (thenBody.rename ρ) none (ρ.labels.place p)
  | branch e thenBody (some elseBody) p =>
    branch (Named.rename ρ e) (thenBody.rename ρ) (some (elseBody.rename ρ)) (ρ.labels.place p)
  | whileLoop e body p => whileLoop (Named.rename ρ e) (body.rename ρ) (ρ.labels.place p)
  | forLoop init e update body p =>
    forLoop (Named.rename ρ init) (Named.rename ρ e) (Named.rename ρ update) (body.rename ρ)
      (ρ.labels.place p)
  | ret value p => ret (Named.rename ρ value) (ρ.labels.place p)
  | print value p => print (Named.rename ρ value) (ρ.labels.place p)
  | expr value p => expr (Named.rename ρ value) (ρ.labels.place p)

def renameAll (ρ : Renaming) : List Stmt → List Stmt
  | [] => []
  | s :: rest => s.rename ρ :: renameAll ρ rest
end

end Stmt

instance : Named Stmt := ⟨Stmt.rename⟩

section Trees

variable (ρ : Renaming)

theorem Expr.renameAll_eq (es : List Expr) : Expr.renameAll ρ es = Named.rename ρ es := by
  induction es with
  | nil => rfl
  | cons e es ih => rw [Expr.renameAll, ih]; rfl

theorem Stmt.renameAll_eq (ss : List Stmt) : Stmt.renameAll ρ ss = Named.rename ρ ss := by
  induction ss with
  | nil => rfl
  | cons s ss ih => rw [Stmt.renameAll, ih]; rfl

@[simp] theorem rename_call (name : String) (args : List Expr) (m : Mark) :
    rename ρ (Expr.call name args m) =
      .call (ρ.ofFunction name) (rename ρ args) (relabel ρ.labels m) :=
  congrArg (fun es => Expr.call (ρ.ofFunction name) es (relabel ρ.labels m))
    (Expr.renameAll_eq ρ args)

@[simp] theorem rename_block (body : List Stmt) (p : Location) :
    rename ρ (Stmt.block body p) = .block (rename ρ body) (ρ.labels.place p) :=
  congrArg (fun ss => Stmt.block ss (ρ.labels.place p)) (Stmt.renameAll_eq ρ body)

@[simp] theorem rename_declareFun (name : String) (returns : BaseType) (params : List Param)
    (body : List Stmt) (p : Location) :
    rename ρ (Stmt.declareFun name returns params body p) =
      .declareFun (ρ.ofFunction name) returns (rename ρ params) (rename ρ body)
        (ρ.labels.place p) :=
  congrArg (fun ss => Stmt.declareFun (ρ.ofFunction name) returns (rename ρ params) ss
    (ρ.labels.place p)) (Stmt.renameAll_eq ρ body)

@[simp] theorem isOmitted_rename (e : Expr) : (rename ρ e).isOmitted = e.isOmitted := by
  cases e with
  | call name args m => rw [rename_call]; rfl
  | _ => rfl

@[simp] theorem location_rename (e : Expr) :
    (rename ρ e).location = ρ.labels.place e.location := by
  cases e with
  | call name args m => rw [rename_call]; rfl
  | _ => rfl

@[simp] theorem map_type_rename (params : List Param) :
    (rename ρ params).map Param.type = params.map Param.type := List.map_map

end Trees

/-! ## Labels alone -/

section Labels

variable (r : Relabelling)

mutual
theorem Expr.rename_ofLabels : (e : Expr) → e.rename (.ofLabels r) = e.relabel r
  | .binary op left right m => by
    rw [Expr.rename, Expr.relabel, left.rename_ofLabels, right.rename_ofLabels]
    rfl
  | .unary op operand m => by
    rw [Expr.rename, Expr.relabel, operand.rename_ofLabels]
    rfl
  | .assign name value m => by
    rw [Expr.rename, Expr.relabel, value.rename_ofLabels]
    rfl
  | .var name m | .number lexeme m | .omitted m => by
    rw [Expr.rename, Expr.relabel]
    rfl
  | .call name args m => by
    rw [Expr.rename, Expr.relabel, Expr.renameAll_ofLabels args]
    rfl

theorem Expr.renameAll_ofLabels : (es : List Expr) →
    Expr.renameAll (.ofLabels r) es = Expr.relabelAll r es
  | [] => rfl
  | e :: es => by rw [Expr.renameAll, Expr.relabelAll, e.rename_ofLabels, renameAll_ofLabels es]
end

theorem expr_rename_eq (e : Expr) : rename (.ofLabels r) e = relabel r e := e.rename_ofLabels r

mutual
theorem Stmt.rename_ofLabels : (s : Stmt) → s.rename (.ofLabels r) = s.relabel r
  | .declareVar name type none p => by
    rw [Stmt.rename, Stmt.relabel]
    rfl
  | .declareVar name type (some init) p => by
    rw [Stmt.rename, Stmt.relabel, rename_some, relabel_some, expr_rename_eq]
    rfl
  | .declareFun name returns params body p => by
    rw [Stmt.rename, Stmt.relabel, Stmt.renameAll_ofLabels body]
    rfl
  | .block body p => by
    rw [Stmt.rename, Stmt.relabel, Stmt.renameAll_ofLabels body]
    rfl
  | .branch e thenBody none p => by
    rw [Stmt.rename, Stmt.relabel, expr_rename_eq, thenBody.rename_ofLabels]
    rfl
  | .branch e thenBody (some elseBody) p => by
    rw [Stmt.rename, Stmt.relabel, expr_rename_eq, thenBody.rename_ofLabels,
      elseBody.rename_ofLabels]
    rfl
  | .whileLoop e body p => by
    rw [Stmt.rename, Stmt.relabel, expr_rename_eq, body.rename_ofLabels]
    rfl
  | .forLoop init e update body p => by
    rw [Stmt.rename, Stmt.relabel, expr_rename_eq, expr_rename_eq, expr_rename_eq,
      body.rename_ofLabels]
    rfl
  | .ret value p | .print value p | .expr value p => by
    rw [Stmt.rename, Stmt.relabel, expr_rename_eq]
    rfl

theorem Stmt.renameAll_ofLabels : (ss : List Stmt) →
    Stmt.renameAll (.ofLabels r) ss = Stmt.relabelAll r ss
  | [] => rfl
  | s :: ss => by rw [Stmt.renameAll, Stmt.relabelAll, s.rename_ofLabels, renameAll_ofLabels ss]
end

theorem program_rename_ofLabels (p : Program) : rename (.ofLabels r) p = relabel r p := by
  have h := Stmt.renameAll_ofLabels r p
  rw [Stmt.renameAll_eq, Stmt.relabelAll_eq] at h
  exact h

end Labels
end MiniCheck
