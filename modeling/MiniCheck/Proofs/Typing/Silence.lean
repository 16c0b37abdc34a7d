import MiniCheck.Typing.Check

/-!
# Checks that report nothing

Diagnostics are only ever added to a log. A check that has reported nothing when it is
over has therefore reported nothing in any of its steps.
-/

namespace MiniCheck
namespace Typing

section Log

variable {σ α β : Type} (log : σ → List Diagnostic)

/-- A step that takes nothing away from the log. -/
def Logs (x : StateM σ α) : Prop := ∀ s, log s <:+ log (x s).2

/-- A step that leaves the log as it is. -/
def Silent (x : StateM σ α) (s : σ) : Prop := log (x s).2 = log s

theorem bind_run (x : StateM σ α) (g : α → StateM σ β) (s : σ) :
    (x >>= g) s = g (x s).1 (x s).2 := rfl

theorem pure_run (a : α) (s : σ) : (pure a : StateM σ α) s = (a, s) := rfl

variable {log}

theorem Logs.pure (a : α) : Logs log (pure a : StateM σ α) := fun _ => List.suffix_refl _

theorem Logs.bind {x : StateM σ α} {g : α → StateM σ β} (hx : Logs log x)
    (hg : ∀ a, Logs log (g a)) : Logs log (x >>= g) := by
  intro s
  rw [bind_run]
  exact (hx s).trans (hg (x s).1 (x s).2)

theorem Logs.ite {p : Prop} [Decidable p] {x y : StateM σ α} (hx : Logs log x)
    (hy : Logs log y) : Logs log (if p then x else y) := by
  split
  · exact hx
  · exact hy

theorem Silent.bind_iff {x : StateM σ α} {g : α → StateM σ β} (hx : Logs log x)
    (hg : ∀ a, Logs log (g a)) (s : σ) :
    Silent log (x >>= g) s ↔ Silent log x s ∧ Silent log (g (x s).1) (x s).2 := by
  unfold Silent
  rw [bind_run]
  constructor
  · intro h
    -- Neither step can shorten the log, and together they leave its length as it was.
    have hfirst := hx s
    have hsecond := hg (x s).1 (x s).2
    rw [h] at hsecond
    have heq : log (x s).2 = log s :=
      hsecond.eq_of_length (Nat.le_antisymm hsecond.length_le hfirst.length_le)
    exact ⟨heq, h.trans heq.symm⟩
  · rintro ⟨hfirst, hsecond⟩
    exact hsecond.trans hfirst

end Log

/-! ## Typing an expression -/

abbrev LogsFindings {α : Type} (x : StateM Findings α) : Prop := Logs Findings.diagnostics x

theorem logs_report (fault : Fault) (p : Location) : LogsFindings (Findings.report fault p) :=
  fun _ => List.suffix_cons _ _

theorem not_silent_report (fault : Fault) (p : Location) (f : Findings) :
    ¬ Silent Findings.diagnostics (Findings.report fault p) f := by
  intro h
  have hlength := congrArg List.length h
  change f.diagnostics.length + 1 = f.diagnostics.length at hlength
  omega

theorem logs_record (m : Mark) (t : Ty) : LogsFindings (Findings.record m t) :=
  fun _ => List.suffix_refl _

theorem logs_operation (op : BinaryOp) (left right : Ty) (p : Location) :
    LogsFindings (operation op left right p) := by
  intro f
  unfold operation
  cases op.isLogical with
  | true => exact List.suffix_refl _
  | false =>
    cases left.isNumeric && right.isNumeric with
    | true => cases op.isArithmetic <;> exact List.suffix_refl _
    | false => cases op.isArithmetic <;> exact List.suffix_cons _ _

theorem logs_prefixed (op : UnaryOp) (found : Ty) (p : Location) :
    LogsFindings (prefixed op found p) := by
  cases op with
  | not => exact .pure _
  | neg => exact .ite (.pure _) ((logs_report _ _).bind fun _ => .pure _)

mutual
theorem logs_infer (table : SymbolTable) : (e : Expr) → LogsFindings (infer table e)
  | .binary op left right m => by
    simp only [infer]
    exact (logs_infer table left).bind fun l => (logs_infer table right).bind fun r =>
      (logs_operation op l r m.location).bind fun t => logs_record m t
  | .unary op operand m => by
    simp only [infer]
    exact (logs_infer table operand).bind fun found =>
      (logs_prefixed op found m.location).bind fun t => logs_record m t
  | .assign name value m => by
    simp only [infer]
    split
    · exact (logs_report _ _).bind fun _ => logs_record m _
    · exact (logs_infer table value).bind fun found =>
        .ite (logs_record m _) ((logs_report _ _).bind fun _ => logs_record m _)
  | .var name m => by
    simp only [infer]
    split
    · exact (logs_report _ _).bind fun _ => logs_record m _
    · exact logs_record m _
  | .number lexeme m => by
    simp only [infer]
    exact logs_record m _
  | .omitted m => by
    simp only [infer]
    exact logs_record m _
  | .call name args m => by
    simp only [infer]
    split
    · exact (logs_report _ _).bind fun _ => logs_record m _
    · exact .ite ((logs_inferArguments table name 1 args _).bind fun _ => logs_record m _)
        ((logs_report _ _).bind fun _ => logs_record m _)

theorem logs_inferArguments (table : SymbolTable) (function : String) (position : Nat) :
    (args : List Expr) → (params : List BaseType) →
      LogsFindings (inferArguments table function position args params)
  | arg :: args, param :: params => by
    simp only [inferArguments]
    have hrest := logs_inferArguments table function (position + 1) args params
    exact (logs_infer table arg).bind fun found => .ite hrest ((logs_report _ _).bind fun _ => hrest)
  | [], _ => by
    unfold inferArguments
    exact .pure _
  | _ :: _, [] => by
    unfold inferArguments
    exact .pure _
end

end Typing

/-! ## Checking a statement -/

namespace Walk

open Typing

def diagnostics (w : Walk) : List Diagnostic := w.findings.diagnostics

abbrev LogsWalk {α : Type} (x : StateM Walk α) : Prop := Logs diagnostics x

theorem logs_report (fault : Fault) (p : Location) : LogsWalk (report fault p) :=
  fun _ => List.suffix_cons _ _

theorem not_silent_report (fault : Fault) (p : Location) (w : Walk) :
    ¬ Silent diagnostics (report fault p) w :=
  Typing.not_silent_report fault p w.findings

theorem logs_infer (e : Expr) : LogsWalk (infer e) := fun w =>
  Typing.logs_infer w.symbols e w.findings

section Declarations

variable {d : SymbolTable → Except Diagnostic SymbolTable} {w : Walk}

theorem get_run (w : Walk) : (get : StateM Walk Walk) w = (w, w) := rfl

theorem declare_of_ok {symbols : SymbolTable} (h : d w.symbols = .ok symbols) :
    declare d w = (true, { w with symbols }) := by
  unfold declare
  rw [bind_run]
  rw [get_run, h]
  rfl

theorem declare_of_error {fault : Diagnostic} (h : d w.symbols = .error fault) :
    declare d w = (false, (report fault.fault fault.location w).2) := by
  unfold declare
  rw [bind_run]
  rw [get_run, h]
  rfl

/-- A declaration that is refused is reported. -/
theorem exists_ok_of_silent (h : Silent diagnostics (declare d) w) :
    ∃ symbols, d w.symbols = .ok symbols := by
  cases hd : d w.symbols with
  | ok symbols => exact ⟨symbols, rfl⟩
  | error fault =>
    unfold Silent at h
    rw [declare_of_error hd] at h
    exact absurd h (not_silent_report _ _ w)

theorem logs_declare (d : SymbolTable → Except Diagnostic SymbolTable) : LogsWalk (declare d) := by
  intro w
  cases hd : d w.symbols with
  | ok symbols =>
    rw [declare_of_ok hd]
    exact List.suffix_refl _
  | error fault =>
    rw [declare_of_error hd]
    exact logs_report _ _ w

end Declarations

theorem logs_framed {x : StateM Walk Unit} (h : LogsWalk x) : LogsWalk (framed x) := fun w =>
  h { w with symbols := w.symbols.push }

theorem logs_returning (type : BaseType) {x : StateM Walk Unit} (h : LogsWalk x) :
    LogsWalk (returning type x) := fun w =>
  h { w with returns := some type }

theorem logs_parameter (p : Param) : LogsWalk (parameter p) :=
  (logs_declare _).bind fun _ => .pure _

theorem logs_parameters (ps : List Param) : LogsWalk (ps.forM parameter) := by
  induction ps with
  | nil => exact .pure _
  | cons p ps ih => exact (logs_parameter p).bind fun _ => ih

theorem logs_condition (construct : Construct) (e : Expr) : LogsWalk (condition construct e) :=
  (logs_infer e).bind fun _ => .ite (.pure _) (logs_report _ _)

theorem logs_evaluate (e : Expr) : LogsWalk (evaluate e) := (logs_infer e).bind fun _ => .pure _

theorem logs_clause (e : Expr) {visit : Expr → StateM Walk Unit} (h : LogsWalk (visit e)) :
    LogsWalk (clause e visit) := .ite (.pure _) h

theorem logs_initializer (name : String) (type : BaseType) :
    (init : Option Expr) → LogsWalk (initializer name type init)
  | none => .pure _
  | some init => (logs_infer init).bind fun _ => .ite (.pure _) (logs_report _ _)

theorem logs_ret (value : Expr) (p : Location) : LogsWalk (ret value p) := by
  refine (logs_infer value).bind fun found => ?_
  intro w
  obtain ⟨symbols, returns, findings⟩ := w
  cases returns with
  | none => exact List.suffix_refl _
  | some expected =>
    exact Logs.ite (.pure _) (logs_report (.returned expected found) p) ⟨symbols, some expected, findings⟩

mutual
theorem logs_visit : (s : Stmt) → LogsWalk (visit s)
  | .declareVar name type init p => by
    simp only [visit]
    exact (logs_declare _).bind fun _ => .ite (logs_initializer name type init) (.pure _)
  | .declareFun name returns params body p => by
    simp only [visit]
    exact (logs_declare _).bind fun _ => .ite
      (logs_returning returns (logs_framed
        ((logs_parameters params).bind fun _ => logs_framed (logs_visitAll body)))) (.pure _)
  | .block body p => by
    simp only [visit]
    exact logs_framed (logs_visitAll body)
  | .branch e thenBody none p => by
    simp only [visit]
    exact (logs_condition _ e).bind fun _ => logs_visit thenBody
  | .branch e thenBody (some elseBody) p => by
    simp only [visit]
    exact (logs_condition _ e).bind fun _ => (logs_visit thenBody).bind fun _ => logs_visit elseBody
  | .whileLoop e body p => by
    simp only [visit]
    exact (logs_condition _ e).bind fun _ => logs_visit body
  | .forLoop init e update body p => by
    simp only [visit]
    exact (logs_clause init (logs_evaluate init)).bind fun _ =>
      (logs_clause e (logs_condition _ e)).bind fun _ =>
        (logs_clause update (logs_evaluate update)).bind fun _ => logs_visit body
  | .ret value p => by
    simp only [visit]
    exact logs_ret value p
  | .print value p => by
    simp only [visit]
    exact logs_evaluate value
  | .expr value p => by
    simp only [visit]
    exact logs_evaluate value

theorem logs_visitAll : (body : List Stmt) → LogsWalk (visitAll body)
  | [] => by
    simp only [visitAll]
    exact .pure _
  | s :: rest => by
    simp only [visitAll]
    exact (logs_visit s).bind fun _ => logs_visitAll rest
end

end Walk
end MiniCheck
