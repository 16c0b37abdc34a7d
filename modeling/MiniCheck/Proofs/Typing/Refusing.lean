import MiniCheck.Proofs.Typing.Checking

/-!
# Statements that the rules refuse are reported

A walk that reports nothing has gone over a statement that the rules take.
-/

namespace MiniCheck
namespace Walk

open Typing Typing.ValueTy

section Parts

variable {w : Walk} {e : Expr}

theorem hasType_of_silent_infer (h : Silent diagnostics (infer e) w) :
    ∃ t ns, HasType w.symbols.scope e t ns := hasType_of_silent e w.findings h

theorem hasType_of_silent_evaluate (h : Silent diagnostics (evaluate e) w) :
    ∃ t ns, HasType w.symbols.scope e t ns := by
  obtain ⟨hinfer, _⟩ := (Silent.bind_iff (logs_infer e) (fun _ => .pure _) w).mp h
  exact hasType_of_silent_infer hinfer

theorem hasType_of_silent_unless {c : Ty → Bool} {fault : Ty → Fault} {p : Location}
    (h : Silent diagnostics (do
      let found ← infer e
      unless c found do report (fault found) p : StateM Walk Unit) w) :
    ∃ t ns, HasType w.symbols.scope e t ns ∧ c t.toTy = true := by
  obtain ⟨hinfer, h⟩ := (Silent.bind_iff (logs_infer e) (fun _ => .ite (.pure _)
    (logs_report _ _)) w).mp h
  obtain ⟨t, ns, ht⟩ := hasType_of_silent_infer hinfer
  rw [infer_run ht] at h
  refine ⟨t, ns, ht, ?_⟩
  by_cases hc : c t.toTy = true
  · exact hc
  · simp only [hc, Bool.false_eq_true, ↓reduceIte] at h
    exact absurd h (not_silent_report _ _ _)

theorem hasType_of_silent_condition {construct : Construct}
    (h : Silent diagnostics (condition construct e) w) :
    ∃ t ns, HasType w.symbols.scope e t ns ∧ t.Tests := by
  obtain ⟨t, ns, ht, hcondition⟩ := hasType_of_silent_unless h
  exact ⟨t, ns, ht, tests_iff.mpr hcondition⟩

theorem hasType_of_silent_initializer {name : String} {type : BaseType}
    (h : Silent diagnostics (initializer name type (some e)) w) :
    ∃ t ns, HasType w.symbols.scope e t ns ∧ Fits type t := by
  obtain ⟨t, ns, ht, haccepts⟩ := hasType_of_silent_unless (c := (Ty.ofBase type).accepts) h
  exact ⟨t, ns, ht, fits_iff.mpr haccepts⟩

theorem clauseTyped_of_silent {Allowed : ValueTy → Prop} {visit : Expr → StateM Walk Unit}
    (h : Silent diagnostics (clause e visit) w)
    (hvisit : Silent diagnostics (visit e) w →
      ∃ t ns, HasType w.symbols.scope e t ns ∧ Allowed t) :
    ∃ ns, ClauseTyped w.symbols.scope Allowed e ns := by
  unfold clause at h
  cases hgiven : e.isOmitted with
  | true =>
    cases e with
    | omitted m => exact ⟨[], .omitted⟩
    | _ => cases hgiven
  | false =>
    simp only [hgiven, Bool.false_eq_true, ↓reduceIte] at h
    obtain ⟨t, ns, ht, hallowed⟩ := hvisit h
    exact ⟨ns, .given hgiven ht hallowed⟩

theorem clauseTyped_of_silent_evaluate (h : Silent diagnostics (clause e evaluate) w) :
    ∃ ns, ClauseTyped w.symbols.scope (fun _ => True) e ns := by
  apply clauseTyped_of_silent h
  intro h
  obtain ⟨t, ns, ht⟩ := hasType_of_silent_evaluate h
  exact ⟨t, ns, ht, trivial⟩

theorem exists_wellTyped_ret {p : Location} (h : Silent diagnostics (ret e p) w) :
    ∃ ns, WellTyped w.returns w.symbols.scope (.ret e p) w.symbols.scope ns := by
  unfold Silent at h
  rw [ret_run] at h
  cases hreturns : w.returns with
  | none =>
    rw [hreturns] at h
    obtain ⟨t, ns, ht⟩ := hasType_of_silent_evaluate h
    exact ⟨ns, .retOutside ht⟩
  | some expected =>
    rw [hreturns] at h
    obtain ⟨t, ns, ht, haccepts⟩ := hasType_of_silent_unless (c := (Ty.ofBase expected).accepts) h
    exact ⟨ns, .ret ht (fits_iff.mpr haccepts)⟩

theorem fresh_of_silent {name : String} {type : BaseType} {p : Location}
    (h : Silent diagnostics (declare fun t => t.declareVariable name type p) w) :
    w.symbols.scope.Fresh name := by
  obtain ⟨symbols, hsymbols⟩ := exists_ok_of_silent h
  exact (SymbolTable.fresh_of_declareVariable hsymbols).1

theorem unknown_of_silent {name : String} {signature : Signature} {p : Location}
    (h : Silent diagnostics (declare fun t => t.declareFunction name signature p) w) :
    w.symbols.scope.functions name = none := by
  obtain ⟨symbols, hsymbols⟩ := exists_ok_of_silent h
  exact (SymbolTable.none_of_declareFunction hsymbols).1

theorem parametersBound_of_silent {ps : List Param} :
    ∀ {w : Walk}, Silent diagnostics (ps.forM parameter) w →
      ∃ Δ, ParametersBound w.symbols.scope ps Δ := by
  induction ps with
  | nil => exact fun _ => ⟨_, .nil⟩
  | cons p ps ih =>
    intro w h
    obtain ⟨hparameter, hrest⟩ := (Silent.bind_iff (logs_parameter p)
      (fun _ => logs_parameters ps) w).mp h
    have hfresh := fresh_of_silent ((Silent.bind_iff (logs_declare _)
      (fun _ => .pure _) w).mp hparameter).1
    rw [parameter_run hfresh] at hrest
    obtain ⟨Δ, hΔ⟩ := ih hrest
    rw [SymbolTable.scope_bind] at hΔ
    exact ⟨Δ, .cons hfresh hΔ⟩

end Parts

mutual
theorem exists_wellTyped : (s : Stmt) → ∀ w : Walk, Silent diagnostics (visit s) w →
    ∃ Δ ns, WellTyped w.returns w.symbols.scope s Δ ns
  | .declareVar name type init p, w, h => by
    have hfresh : w.symbols.scope.Fresh name := by
      simp only [visit] at h
      exact fresh_of_silent ((Silent.bind_iff (logs_declare _) (fun _ =>
        .ite (logs_initializer name type init) (.pure _)) w).mp h).1
    unfold Silent at h
    rw [visit_declareVar_run hfresh] at h
    cases init with
    | none => exact ⟨_, _, .declare hfresh⟩
    | some init =>
      obtain ⟨t, ns, ht, hfits⟩ := hasType_of_silent_initializer h
      rw [SymbolTable.scope_bind] at ht
      exact ⟨_, _, .declareInit hfresh ht hfits⟩
  | .declareFun name returns params body p, w, h => by
    have hlogs : LogsWalk (params.forM parameter >>= fun _ => framed (visitAll body)) :=
      (logs_parameters params).bind fun _ => logs_framed (logs_visitAll body)
    have hname : w.symbols.scope.functions name = none := by
      simp only [visit] at h
      exact unknown_of_silent ((Silent.bind_iff (logs_declare _) (fun _ =>
        .ite (logs_returning returns (logs_framed hlogs)) (.pure _)) w).mp h).1
    unfold Silent at h
    rw [visit_declareFun_run hname] at h
    obtain ⟨hparams, hbody⟩ := (Silent.bind_iff (logs_parameters params)
      (fun _ => logs_framed (logs_visitAll body)) ⟨SymbolTable.push _, some returns, _⟩).mp h
    obtain ⟨Δ, hΔ⟩ := parametersBound_of_silent hparams
    have hreaches := reaches_parameters hΔ
    obtain ⟨Ε, ns, hbody⟩ := exists_allWellTyped body _ hbody
    rw [hreaches.returns, SymbolTable.scope_push, hreaches.scope] at hbody
    rw [SymbolTable.scope_push, SymbolTable.scope_addFunction] at hΔ
    exact ⟨_, _, .function hname hΔ hbody⟩
  | .block body p, w, h => by
    simp only [visit] at h
    obtain ⟨Δ, ns, hbody⟩ := exists_allWellTyped body { w with symbols := w.symbols.push } h
    exact ⟨_, _, .block hbody⟩
  | .branch e thenBody none p, w, h => by
    simp only [visit] at h
    obtain ⟨hcondition, h⟩ := (Silent.bind_iff (logs_condition _ e)
      (fun _ => logs_visit thenBody) w).mp h
    obtain ⟨t, ns, ht, htests⟩ := hasType_of_silent_condition hcondition
    have hreaches := reaches_condition .ifBranch ht htests
    obtain ⟨Δ, ns', hthen⟩ := exists_wellTyped thenBody _ h
    rw [hreaches.returns, hreaches.scope] at hthen
    exact ⟨_, _, .branch ht htests hthen⟩
  | .branch e thenBody (some elseBody) p, w, h => by
    simp only [visit] at h
    obtain ⟨hcondition, h⟩ := (Silent.bind_iff (logs_condition _ e)
      (fun _ => (logs_visit thenBody).bind fun _ => logs_visit elseBody) w).mp h
    obtain ⟨t, ns, ht, htests⟩ := hasType_of_silent_condition hcondition
    have hreaches := reaches_condition .ifBranch ht htests
    obtain ⟨hthen, helse⟩ := (Silent.bind_iff (logs_visit thenBody)
      (fun _ => logs_visit elseBody) _).mp h
    obtain ⟨Δ, ns', hthen⟩ := exists_wellTyped thenBody _ hthen
    rw [hreaches.returns, hreaches.scope] at hthen
    have hreaches' := reaches_visit thenBody hthen _ hreaches.returns hreaches.scope
    obtain ⟨Ε, ns'', helse⟩ := exists_wellTyped elseBody _ helse
    rw [hreaches'.returns, hreaches.returns, hreaches'.scope] at helse
    exact ⟨_, _, .branchElse ht htests hthen helse⟩
  | .whileLoop e body p, w, h => by
    simp only [visit] at h
    obtain ⟨hcondition, h⟩ := (Silent.bind_iff (logs_condition _ e)
      (fun _ => logs_visit body) w).mp h
    obtain ⟨t, ns, ht, htests⟩ := hasType_of_silent_condition hcondition
    have hreaches := reaches_condition .whileLoop ht htests
    obtain ⟨Δ, ns', hbody⟩ := exists_wellTyped body _ h
    rw [hreaches.returns, hreaches.scope] at hbody
    exact ⟨_, _, .whileLoop ht htests hbody⟩
  | .forLoop init e update body p, w, h => by
    have hlogs := logs_clause e (logs_condition .forLoop e)
    have hlogs' := logs_clause update (logs_evaluate update)
    simp only [visit] at h
    obtain ⟨hinit, h⟩ := (Silent.bind_iff (logs_clause init (logs_evaluate init))
      (fun _ => hlogs.bind fun _ => hlogs'.bind fun _ => logs_visit body) w).mp h
    obtain ⟨he, h⟩ := (Silent.bind_iff hlogs
      (fun _ => hlogs'.bind fun _ => logs_visit body) _).mp h
    obtain ⟨hupdate, h⟩ := (Silent.bind_iff hlogs' (fun _ => logs_visit body) _).mp h
    obtain ⟨ns, hinit⟩ := clauseTyped_of_silent_evaluate hinit
    have hfirst := reaches_clause hinit fun h _ => reaches_evaluate h
    obtain ⟨ns', he⟩ := clauseTyped_of_silent he hasType_of_silent_condition
    have hsecond := hfirst.trans (reaches_clause he fun h htests => reaches_condition .forLoop h htests)
    obtain ⟨ns'', hupdate⟩ := clauseTyped_of_silent_evaluate hupdate
    have hthird := hsecond.trans (reaches_clause hupdate fun h _ => reaches_evaluate h)
    obtain ⟨Δ, ns''', hbody⟩ := exists_wellTyped body _ h
    rw [hthird.returns, hthird.scope, hsecond.scope, hfirst.scope] at hbody
    rw [hsecond.scope, hfirst.scope] at hupdate
    rw [hfirst.scope] at he
    exact ⟨_, _, .forLoop hinit he hupdate hbody⟩
  | .ret value p, w, h => by
    simp only [visit] at h
    obtain ⟨ns, hret⟩ := exists_wellTyped_ret h
    exact ⟨_, _, hret⟩
  | .print value p, w, h => by
    simp only [visit] at h
    obtain ⟨t, ns, ht⟩ := hasType_of_silent_evaluate h
    exact ⟨_, _, .print ht⟩
  | .expr value p, w, h => by
    simp only [visit] at h
    obtain ⟨t, ns, ht⟩ := hasType_of_silent_evaluate h
    exact ⟨_, _, .expr ht⟩

theorem exists_allWellTyped : (body : List Stmt) → ∀ w : Walk,
    Silent diagnostics (visitAll body) w →
      ∃ Δ ns, AllWellTyped w.returns w.symbols.scope body Δ ns
  | [], w, _ => ⟨_, _, .nil⟩
  | s :: rest, w, h => by
    simp only [visitAll] at h
    obtain ⟨hs, hrest⟩ := (Silent.bind_iff (logs_visit s) (fun _ => logs_visitAll rest) w).mp h
    obtain ⟨Δ, ns, hs⟩ := exists_wellTyped s w hs
    have hreaches := reaches_visit s hs w rfl rfl
    obtain ⟨Ε, ns', hrest⟩ := exists_allWellTyped rest _ hrest
    rw [hreaches.returns, hreaches.scope] at hrest
    exact ⟨_, _, .cons hs hrest⟩
end

end Walk
end MiniCheck
