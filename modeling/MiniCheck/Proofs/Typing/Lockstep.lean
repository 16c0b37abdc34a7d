import MiniCheck.Proofs.Typing.Relabelling

/-!
# Checks do not look at what was found before

From two walks with the same symbols and inside the same function, a statement is checked in the
same way, whatever the two have found so far. Both find the same in addition to that.
-/

namespace MiniCheck

/-! ## Renamed to the same names -/

section Unchanged

theorem expr_rename_unchanged (e : Expr) : rename (.ofLabels .unchanged) e = e :=
  (expr_rename_eq .unchanged e).trans (expr_unchanged e)

theorem params_rename_unchanged (ps : List Param) : rename (.ofLabels .unchanged) ps = ps :=
  List.map_id ps

theorem stmt_rename_unchanged (s : Stmt) : rename (.ofLabels .unchanged) s = s :=
  (s.rename_ofLabels .unchanged).trans s.relabel_unchanged

theorem program_rename_unchanged (p : Program) : rename (.ofLabels .unchanged) p = p :=
  (program_rename_ofLabels .unchanged p).trans (program_unchanged p)

theorem findings_unchanged (new : Findings) : rename (.ofLabels .unchanged) new = new := by
  have hdiagnostics : rename (.ofLabels .unchanged) new.diagnostics = new.diagnostics :=
    (List.map_congr_left fun d _ => diagnostic_rename_ofLabels .unchanged d).trans
      (List.map_id new.diagnostics)
  have htypes : relabelTypes .unchanged new.types = new.types := List.map_id new.types
  change Findings.mk (rename (.ofLabels .unchanged) new.diagnostics)
    (relabelTypes .unchanged new.types) = new
  rw [hdiagnostics, htypes]

end Unchanged

theorem SymbolTable.corresponds_eq :
    Typing.Corresponds (.ofLabels .unchanged) (fun _ => True) Eq where
  push := by
    rintro t _ rfl
    rfl
  pop := by
    rintro t _ rfl
    rfl
  typeOf? := by
    rintro t _ name rfl _
    rfl
  isSome_innermost := by
    rintro t _ name rfl _
    rfl
  bind := by
    rintro t _ name rfl _ type
    rfl
  signatureOf? := by
    rintro t _ name rfl _
    rfl
  learn := by
    rintro t _ name rfl _ signature
    rfl

namespace Walk

open Typing (Relates)

theorem Alongside.exists_findings {T : SymbolTable → SymbolTable → Prop} {f f' : Findings}
    {returns : Option BaseType} {w w' : Walk}
    (h : Alongside (.ofLabels .unchanged) T f f' returns w w') :
    ∃ new : Findings, w.findings = new.onto f ∧ w'.findings = new.onto f' := by
  obtain ⟨new, hnew, hnew'⟩ := h.findings
  rw [findings_unchanged] at hnew'
  exact ⟨new, hnew, hnew'⟩

/-- Two walks with the same symbols inside a function that returns `returns`, of which the one
had found `f` and the other `f'` before they found the same. -/
abbrev Twins (f f' : Findings) (returns : Option BaseType) (w w' : Walk) : Prop :=
  Alongside (.ofLabels .unchanged) Eq f f' returns w w'

section Twins

variable {f f' : Findings} {returns : Option BaseType}

theorem twins_of_eq {w w' : Walk} (hsymbols : w'.symbols = w.symbols)
    (hreturns : w'.returns = w.returns) : Twins w.findings w'.findings w.returns w w' :=
  ⟨hsymbols.symm, rfl, hreturns, .nothing, rfl, rfl⟩

theorem twins_parameters (ps : List Param) :
    Relates (Twins f f' returns) Eq (ps.forM parameter) (ps.forM parameter) := by
  have h : Relates (Twins f f' returns) Eq (ps.forM parameter)
      ((rename (.ofLabels .unchanged) ps).forM parameter) :=
    parallel_parameters SymbolTable.corresponds_eq fun _ _ => trivial
  rwa [params_rename_unchanged] at h

theorem twins_condition (construct : Construct) (e : Expr) :
    Relates (Twins f f' returns) Eq (condition construct e) (condition construct e) := by
  have h : Relates (Twins f f' returns) Eq (condition construct e)
      (condition construct (rename (.ofLabels .unchanged) e)) :=
    parallel_condition SymbolTable.corresponds_eq construct fun _ _ => trivial
  rwa [expr_rename_unchanged] at h

theorem twins_evaluate (e : Expr) :
    Relates (Twins f f' returns) Eq (evaluate e) (evaluate e) := by
  have h : Relates (Twins f f' returns) Eq (evaluate e)
      (evaluate (rename (.ofLabels .unchanged) e)) :=
    parallel_evaluate SymbolTable.corresponds_eq fun _ _ => trivial
  rwa [expr_rename_unchanged] at h

theorem twins_clause (e : Expr) {visit : Expr → StateM Walk Unit}
    (h : Relates (Twins f f' returns) Eq (visit e) (visit e)) :
    Relates (Twins f f' returns) Eq (clause e visit) (clause e visit) :=
  .ite (.pure rfl) h

theorem twins_visit (s : Stmt) : Relates (Twins f f' returns) Eq (visit s) (visit s) := by
  have h : Relates (Twins f f' returns) Eq (visit s)
      (visit (rename (.ofLabels .unchanged) s)) :=
    parallel_visit SymbolTable.corresponds_eq s fun _ _ => trivial
  rwa [stmt_rename_unchanged] at h

theorem twins_visitAll (body : List Stmt) :
    Relates (Twins f f' returns) Eq (visitAll body) (visitAll body) := by
  have h : Relates (Twins f f' returns) Eq (visitAll body)
      (visitAll (rename (.ofLabels .unchanged) body)) :=
    parallel_visitAll SymbolTable.corresponds_eq body fun _ _ => trivial
  rwa [program_rename_unchanged] at h

end Twins

/-- A statement leaves the function in which it stands. -/
theorem returns_visit (s : Stmt) (w : Walk) : (visit s w).2.returns = w.returns :=
  (twins_visit s w w (twins_of_eq rfl rfl)).2.first

theorem exists_findings_visitAll (body : List Stmt) (w : Walk) :
    ∃ new : Findings, (visitAll body w).2.findings = new.onto w.findings := by
  obtain ⟨new, hnew, _⟩ := (twins_visitAll body w w (twins_of_eq rfl rfl)).2.exists_findings
  exact ⟨new, hnew⟩

end Walk
end MiniCheck
