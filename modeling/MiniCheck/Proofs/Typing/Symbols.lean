import MiniCheck.Proofs.Typing.Silence

/-!
# The symbols behind a statement

Which names are declared behind a statement depends on the declarations in it and before it,
and on nothing that a check finds in between.
-/

namespace MiniCheck

namespace SymbolTable

section TopLevel

/-! At the top level the innermost frame is the global one. -/

variable {t : SymbolTable}

theorem innermost_of_inner_nil (h : t.inner = []) : t.innermost = t.outermost := by
  rw [innermost, h, List.headD_nil]

theorem bind_of_inner_nil (h : t.inner = []) (name : String) (type : BaseType) :
    t.bind name type = { t with outermost := (name, type) :: t.outermost } := by
  simp only [bind, h]

theorem typeOf?_of_inner_nil (h : t.inner = []) (name : String) :
    t.typeOf? name = t.outermost.lookup name := by
  unfold typeOf? frames
  rw [h, List.nil_append, List.findSome?_singleton]

end TopLevel

variable (t : SymbolTable)

/-- The table behind a declaration. One that is refused leaves it as it was. -/
def declaring (declaration : SymbolTable → Except Diagnostic SymbolTable) : SymbolTable :=
  match declaration t with
  | .ok t' => t'
  | .error _ => t

theorem declaring_declareVariable (name : String) (type : BaseType) (p : Location) :
    (t.declaring fun t => t.declareVariable name type p) =
      if (t.innermost.lookup name).isSome then t else t.bind name type := by
  by_cases h : (t.innermost.lookup name).isSome
  · simp only [declaring, declareVariable, h, ↓reduceIte]
  · simp only [declaring, declareVariable, h, Bool.false_eq_true, ↓reduceIte]

def withParameter (p : Param) : SymbolTable :=
  t.declaring fun t => t.declareVariable p.name p.type p.location

/-- The table at the beginning of the body of a function. -/
def inFunction (params : List Param) : SymbolTable := (params.foldl withParameter t.push).push

/-- Parameters go into the innermost frame, which is not the global one. -/
theorem pop_parameters (params : List Param) : ∀ frame : Frame,
    (params.foldl withParameter { t with inner := frame :: t.inner }).pop = t := by
  induction params with
  | nil => exact fun _ => rfl
  | cons p params ih =>
    intro frame
    rw [List.foldl_cons, withParameter, declaring_declareVariable]
    split
    · exact ih _
    · exact ih _

theorem pop_pop_inFunction (params : List Param) : (t.inFunction params).pop.pop = t :=
  t.pop_parameters params []

mutual
/-- The table behind a statement. -/
def after (t : SymbolTable) : Stmt → SymbolTable
  | .declareVar name type _ p => t.declaring fun t => t.declareVariable name type p
  | .declareFun name returns params body p =>
    match t.declareFunction name ⟨returns, params.map Param.type⟩ p with
    | .ok t' => ((t'.inFunction params).afterAll body).pop.pop
    | .error _ => t
  | .block body _ => (t.push.afterAll body).pop
  | .branch _ thenBody none _ => t.after thenBody
  | .branch _ thenBody (some elseBody) _ => (t.after thenBody).after elseBody
  | .whileLoop _ body _ | .forLoop _ _ _ body _ => t.after body
  | .ret _ _ | .print _ _ | .expr _ _ => t

def afterAll (t : SymbolTable) : List Stmt → SymbolTable
  | [] => t
  | s :: rest => (t.after s).afterAll rest
end

end SymbolTable

namespace Walk

open Typing (bind_run)

theorem symbols_declare (d : SymbolTable → Except Diagnostic SymbolTable) (w : Walk) :
    (declare d w).2.symbols = w.symbols.declaring d := by
  unfold SymbolTable.declaring
  cases hd : d w.symbols with
  | ok t => rw [declare_of_ok hd]
  | error fault =>
    rw [declare_of_error hd]
    rfl

theorem symbols_parameters (ps : List Param) : ∀ w : Walk,
    (ps.forM parameter w).2.symbols = ps.foldl SymbolTable.withParameter w.symbols := by
  induction ps with
  | nil => exact fun _ => rfl
  | cons p ps ih =>
    intro w
    have hrun : ((p :: ps).forM parameter w).2 = (ps.forM parameter (parameter p w).2).2 := rfl
    have hfirst : (parameter p w).2.symbols = w.symbols.withParameter p := by
      unfold parameter
      rw [bind_run]
      exact symbols_declare _ w
    rw [hrun, ih, hfirst, List.foldl_cons]

theorem symbols_unless {c : Bool} (fault : Fault) (p : Location) (w : Walk) :
    ((unless c do report fault p : StateM Walk Unit) w).2.symbols = w.symbols := by
  cases c <;> rfl

theorem symbols_condition (construct : Construct) (e : Expr) (w : Walk) :
    (condition construct e w).2.symbols = w.symbols := by
  unfold condition
  rw [bind_run, symbols_unless]
  rfl

theorem symbols_clause (e : Expr) {visit : Expr → StateM Walk Unit} {w : Walk}
    (h : (visit e w).2.symbols = w.symbols) : (clause e visit w).2.symbols = w.symbols := by
  unfold clause
  split
  · rfl
  · exact h

theorem symbols_initializer (name : String) (type : BaseType) (init : Option Expr) (w : Walk) :
    (initializer name type init w).2.symbols = w.symbols := by
  cases init with
  | none => rfl
  | some init =>
    simp only [initializer]
    rw [bind_run, symbols_unless]
    rfl

theorem symbols_ret (value : Expr) (p : Location) (w : Walk) :
    (ret value p w).2.symbols = w.symbols := by
  obtain ⟨symbols, returns, findings⟩ := w
  cases returns with
  | none => rfl
  | some expected => exact symbols_unless _ _ _

/-- What a function leaves behind, if its body does to the symbols what `f` does. -/
theorem symbols_function {f : SymbolTable → SymbolTable} {x : StateM Walk Unit}
    (hx : ∀ w, (x w).2.symbols = f w.symbols) (returns : BaseType) (params : List Param)
    (w : Walk) :
    (returning returns (framed do
      params.forM parameter
      framed x) w).2.symbols = (f (w.symbols.inFunction params)).pop.pop := by
  let entered : Walk := { w with returns := some returns, symbols := w.symbols.push }
  have hparams := symbols_parameters params entered
  have hbody := hx { (params.forM parameter entered).2 with
    symbols := (params.forM parameter entered).2.symbols.push }
  simp only [hparams] at hbody
  refine Eq.trans ?_ (congrArg (fun t => t.pop.pop) hbody)
  rw [← hparams]
  rfl

mutual
theorem symbols_visit : (s : Stmt) → ∀ w : Walk, (visit s w).2.symbols = w.symbols.after s
  | .declareVar name type init p, w => by
    have hdeclare := symbols_declare (fun t => t.declareVariable name type p) w
    simp only [visit, SymbolTable.after]
    rw [bind_run, ← hdeclare]
    split
    · exact symbols_initializer _ _ _ _
    · rfl
  | .declareFun name returns params body p, w => by
    simp only [visit, SymbolTable.after]
    rw [bind_run]
    cases hd : w.symbols.declareFunction name ⟨returns, params.map Param.type⟩ p with
    | error fault =>
      rw [declare_of_error hd]
      rfl
    | ok t =>
      rw [declare_of_ok hd]
      exact symbols_function (f := fun t => t.afterAll body) (symbols_visitAll body) returns params
        { w with symbols := t }
  | .block body p, w => by
    simp only [visit, SymbolTable.after]
    exact congrArg SymbolTable.pop (symbols_visitAll body { w with symbols := w.symbols.push })
  | .branch e thenBody none p, w => by
    simp only [visit, SymbolTable.after]
    rw [bind_run, symbols_visit thenBody, symbols_condition]
  | .branch e thenBody (some elseBody) p, w => by
    simp only [visit, SymbolTable.after]
    rw [bind_run, bind_run, symbols_visit elseBody, symbols_visit thenBody, symbols_condition]
  | .whileLoop e body p, w => by
    simp only [visit, SymbolTable.after]
    rw [bind_run, symbols_visit body, symbols_condition]
  | .forLoop init e update body p, w => by
    simp only [visit, SymbolTable.after]
    rw [bind_run, bind_run, bind_run, symbols_visit body, symbols_clause update rfl,
      symbols_clause e (symbols_condition _ e _), symbols_clause init rfl]
  | .ret value p, w => by
    simp only [visit, SymbolTable.after]
    exact symbols_ret value p w
  | .print value p, w | .expr value p, w => by
    simp only [visit, SymbolTable.after]
    rfl

theorem symbols_visitAll : (body : List Stmt) → ∀ w : Walk,
    (visitAll body w).2.symbols = w.symbols.afterAll body
  | [], w => by
    simp only [visitAll, SymbolTable.afterAll]
    rfl
  | s :: rest, w => by
    simp only [visitAll, SymbolTable.afterAll]
    rw [bind_run, symbols_visitAll rest, symbols_visit s]
end

end Walk
end MiniCheck
