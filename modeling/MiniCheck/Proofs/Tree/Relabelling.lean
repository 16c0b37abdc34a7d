import MiniCheck.Tree.Basic

/-!
# New numbers and new places

A relabelling gives every expression another number and everything another place, and
changes nothing else. Two things are the same but for some of their labels if they are equal
once those labels are forgotten.
-/

namespace MiniCheck

structure Relabelling where
  id : Nat → Nat
  place : Location → Location

namespace Relabelling

/-- Leaves all labels as they are. -/
def unchanged : Relabelling := ⟨fun i => i, fun p => p⟩

/-- Forgets where everything stands. -/
def unplaced : Relabelling := ⟨fun i => i, fun _ => .first⟩

/-- Forgets where everything stands, and the numbers of the expressions. -/
def unmarked : Relabelling := ⟨fun _ => 0, fun _ => .first⟩

end Relabelling

/-- What has labels, or at least could have. -/
class Labelled (α : Type) where
  relabel : Relabelling → α → α

export Labelled (relabel)

section Instances

variable {α : Type} (r : Relabelling)

instance : Labelled Location := ⟨fun r p => r.place p⟩

instance : Labelled Bool := ⟨fun _ b => b⟩

instance : Labelled Unit := ⟨fun _ u => u⟩

instance : Labelled BaseType := ⟨fun _ b => b⟩

instance [Labelled α] : Labelled (List α) := ⟨fun r as => as.map (relabel r)⟩

instance [Labelled α] : Labelled (Option α) := ⟨fun r o => o.map (relabel r)⟩

instance {ε : Type} [Labelled ε] [Labelled α] : Labelled (Except ε α) where
  relabel
    | r, .ok a => .ok (relabel r a)
    | r, .error e => .error (relabel r e)

@[simp] theorem relabel_nil [Labelled α] : relabel r ([] : List α) = [] := rfl

@[simp] theorem relabel_cons [Labelled α] (a : α) (as : List α) :
    relabel r (a :: as) = relabel r a :: relabel r as := rfl

@[simp] theorem relabel_append [Labelled α] (as bs : List α) :
    relabel r (as ++ bs) = relabel r as ++ relabel r bs := List.map_append

@[simp] theorem relabel_some [Labelled α] (a : α) : relabel r (some a) = some (relabel r a) := rfl

end Instances

section Outcomes

variable {ε α : Type} [Labelled ε] [Labelled α] {r : Relabelling} {x : Except ε α}

/-- What differs from a result in labels alone is a result. -/
theorem exists_ok_of_relabel_eq {b : α} (h : relabel r x = relabel r (.ok b : Except ε α)) :
    ∃ a, x = .ok a ∧ relabel r a = relabel r b := by
  cases x with
  | ok a => exact ⟨a, rfl, Except.ok.inj h⟩
  | error e => cases h

/-- What differs from an error in labels alone is an error. -/
theorem exists_error_of_relabel_eq {e : ε} (h : relabel r x = relabel r (.error e : Except ε α)) :
    ∃ d, x = .error d ∧ relabel r d = relabel r e := by
  cases x with
  | ok a => cases h
  | error d => exact ⟨d, rfl, Except.error.inj h⟩

end Outcomes

/-! ## Trees -/

instance : Labelled Mark := ⟨fun r m => ⟨r.id m.id, r.place m.location⟩⟩

instance : Labelled Param := ⟨fun r p => { p with location := r.place p.location }⟩

namespace Expr

mutual
def relabel (r : Relabelling) : Expr → Expr
  | binary op left right m => binary op (left.relabel r) (right.relabel r) (Labelled.relabel r m)
  | unary op operand m => unary op (operand.relabel r) (Labelled.relabel r m)
  | assign name value m => assign name (value.relabel r) (Labelled.relabel r m)
  | var name m => var name (Labelled.relabel r m)
  | number lexeme m => number lexeme (Labelled.relabel r m)
  | omitted m => omitted (Labelled.relabel r m)
  | call name args m => call name (relabelAll r args) (Labelled.relabel r m)

def relabelAll (r : Relabelling) : List Expr → List Expr
  | [] => []
  | e :: es => e.relabel r :: relabelAll r es
end

end Expr

instance : Labelled Expr := ⟨Expr.relabel⟩

namespace Stmt

mutual
def relabel (r : Relabelling) : Stmt → Stmt
  | declareVar name type init p => declareVar name type (Labelled.relabel r init) (r.place p)
  | declareFun name returns params body p =>
    declareFun name returns (Labelled.relabel r params) (relabelAll r body) (r.place p)
  | block body p => block (relabelAll r body) (r.place p)
  | branch e thenBody none p => branch (Labelled.relabel r e) (thenBody.relabel r) none (r.place p)
  | branch e thenBody (some elseBody) p =>
    branch (Labelled.relabel r e) (thenBody.relabel r) (some (elseBody.relabel r)) (r.place p)
  | whileLoop e body p => whileLoop (Labelled.relabel r e) (body.relabel r) (r.place p)
  | forLoop init e update body p =>
    forLoop (Labelled.relabel r init) (Labelled.relabel r e) (Labelled.relabel r update)
      (body.relabel r) (r.place p)
  | ret value p => ret (Labelled.relabel r value) (r.place p)
  | print value p => print (Labelled.relabel r value) (r.place p)
  | expr value p => expr (Labelled.relabel r value) (r.place p)

def relabelAll (r : Relabelling) : List Stmt → List Stmt
  | [] => []
  | s :: rest => s.relabel r :: relabelAll r rest
end

end Stmt

instance : Labelled Stmt := ⟨Stmt.relabel⟩

section Trees

variable (r : Relabelling)

theorem Expr.relabelAll_eq (es : List Expr) : Expr.relabelAll r es = Labelled.relabel r es := by
  induction es with
  | nil => rfl
  | cons e es ih => rw [Expr.relabelAll, ih]; rfl

theorem Stmt.relabelAll_eq (ss : List Stmt) : Stmt.relabelAll r ss = Labelled.relabel r ss := by
  induction ss with
  | nil => rfl
  | cons s ss ih => rw [Stmt.relabelAll, ih]; rfl

@[simp] theorem relabel_call (name : String) (args : List Expr) (m : Mark) :
    relabel r (Expr.call name args m) = .call name (relabel r args) (relabel r m) :=
  congrArg (fun es => Expr.call name es (relabel r m)) (Expr.relabelAll_eq r args)

@[simp] theorem relabel_block (body : List Stmt) (p : Location) :
    relabel r (Stmt.block body p) = .block (relabel r body) (r.place p) :=
  congrArg (fun ss => Stmt.block ss (r.place p)) (Stmt.relabelAll_eq r body)

@[simp] theorem relabel_declareFun (name : String) (returns : BaseType) (params : List Param)
    (body : List Stmt) (p : Location) :
    relabel r (Stmt.declareFun name returns params body p) =
      .declareFun name returns (relabel r params) (relabel r body) (r.place p) :=
  congrArg (fun ss => Stmt.declareFun name returns (relabel r params) ss (r.place p))
    (Stmt.relabelAll_eq r body)

@[simp] theorem relabel_branch (e : Expr) (thenBody : Stmt) (elseBody : Option Stmt)
    (p : Location) :
    relabel r (Stmt.branch e thenBody elseBody p) =
      .branch (relabel r e) (relabel r thenBody) (relabel r elseBody) (r.place p) := by
  cases elseBody with
  | none => rfl
  | some elseBody => rfl

end Trees

/-! ## The same labels -/

mutual
theorem Expr.relabel_unchanged : (e : Expr) → e.relabel .unchanged = e
  | .binary op left right m => by
    rw [Expr.relabel, left.relabel_unchanged, right.relabel_unchanged]
    rfl
  | .unary op operand m => by
    rw [Expr.relabel, operand.relabel_unchanged]
    rfl
  | .assign name value m => by
    rw [Expr.relabel, value.relabel_unchanged]
    rfl
  | .var name m | .number lexeme m | .omitted m => by
    rw [Expr.relabel]
    rfl
  | .call name args m => by
    rw [Expr.relabel, Expr.relabelAll_unchanged args]
    rfl

theorem Expr.relabelAll_unchanged : (es : List Expr) → Expr.relabelAll .unchanged es = es
  | [] => rfl
  | e :: es => by rw [Expr.relabelAll, e.relabel_unchanged, relabelAll_unchanged es]
end

theorem expr_unchanged (e : Expr) : relabel .unchanged e = e := e.relabel_unchanged

theorem params_unchanged (params : List Param) : relabel .unchanged params = params :=
  List.map_id params

mutual
theorem Stmt.relabel_unchanged : (s : Stmt) → s.relabel .unchanged = s
  | .declareVar name type none p => by
    rw [Stmt.relabel]
    rfl
  | .declareVar name type (some init) p => by
    rw [Stmt.relabel, relabel_some, expr_unchanged]
    rfl
  | .declareFun name returns params body p => by
    rw [Stmt.relabel, params_unchanged, Stmt.relabelAll_unchanged body]
    rfl
  | .block body p => by
    rw [Stmt.relabel, Stmt.relabelAll_unchanged body]
    rfl
  | .branch e thenBody none p => by
    rw [Stmt.relabel, expr_unchanged, thenBody.relabel_unchanged]
    rfl
  | .branch e thenBody (some elseBody) p => by
    rw [Stmt.relabel, expr_unchanged, thenBody.relabel_unchanged, elseBody.relabel_unchanged]
    rfl
  | .whileLoop e body p => by
    rw [Stmt.relabel, expr_unchanged, body.relabel_unchanged]
    rfl
  | .forLoop init e update body p => by
    rw [Stmt.relabel, expr_unchanged, expr_unchanged, expr_unchanged, body.relabel_unchanged]
    rfl
  | .ret value p | .print value p | .expr value p => by
    rw [Stmt.relabel, expr_unchanged]
    rfl

theorem Stmt.relabelAll_unchanged : (ss : List Stmt) → Stmt.relabelAll .unchanged ss = ss
  | [] => rfl
  | s :: ss => by rw [Stmt.relabelAll, s.relabel_unchanged, relabelAll_unchanged ss]
end

theorem program_unchanged (p : Program) : relabel .unchanged p = p := by
  have h := Stmt.relabelAll_unchanged p
  rw [Stmt.relabelAll_eq] at h
  exact h

end MiniCheck
