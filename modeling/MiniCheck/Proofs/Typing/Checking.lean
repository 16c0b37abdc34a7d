import MiniCheck.Proofs.Typing.Inference

/-!
# Statements are checked by the rules

A walk over a statement reports nothing exactly if the rules take the statement. The walk
then leaves the scope that the rules leave, and has recorded the types that they give.
-/

namespace MiniCheck

namespace SymbolTable

open Typing (Scope)

variable {t : SymbolTable} {name : String}

theorem scope_frames_ne_nil : t.scope.frames ≠ [] := by
  simp [scope, frames]

/-- The global frame cannot be popped, any other can. -/
theorem scope_pop (h : t.scope.frames.tail ≠ []) :
    t.pop.scope = ⟨t.scope.frames.tail, t.scope.functions⟩ := by
  obtain ⟨inner, outermost, known⟩ := t
  cases inner with
  | nil => exact absurd rfl h
  | cons frame inner => rfl

theorem declareVariable_of_fresh (h : t.scope.Fresh name) (type : BaseType) (p : Location) :
    t.declareVariable name type p = .ok (t.bind name type) := by
  rw [scope_fresh_iff] at h
  simp [declareVariable, h]

theorem fresh_of_declareVariable {type : BaseType} {p : Location} {table : SymbolTable}
    (h : t.declareVariable name type p = .ok table) :
    t.scope.Fresh name ∧ table = t.bind name type := by
  unfold declareVariable at h
  rw [scope_fresh_iff]
  cases hname : t.innermost.lookup name with
  | some found => simp [hname] at h
  | none =>
    simp only [hname, Option.isSome_none, Bool.false_eq_true, ↓reduceIte, Except.ok.injEq] at h
    exact ⟨rfl, h.symm⟩

theorem scope_addFunction (name : String) (signature : Signature) :
    SymbolTable.scope { t with known := (name, signature) :: t.known } =
      t.scope.addFunction name signature := by
  unfold scope Scope.addFunction
  congr 1
  exact lookup_cons_eq name signature t.known

theorem declareFunction_of_none (h : t.scope.functions name = none) (signature : Signature)
    (p : Location) :
    t.declareFunction name signature p = .ok { t with known := (name, signature) :: t.known } := by
  have hname : t.known.lookup name = none := h
  simp [declareFunction, hname]

theorem none_of_declareFunction {signature : Signature} {p : Location} {table : SymbolTable}
    (h : t.declareFunction name signature p = .ok table) :
    t.scope.functions name = none ∧ table = { t with known := (name, signature) :: t.known } := by
  unfold declareFunction at h
  cases hname : t.known.lookup name with
  | some found => simp [hname] at h
  | none =>
    simp only [hname, Option.isSome_none, Bool.false_eq_true, ↓reduceIte, Except.ok.injEq] at h
    exact ⟨hname, h.symm⟩

end SymbolTable

namespace Typing

/-! ## Scopes that statements leave -/

theorem Scope.tail_bind (Γ : Scope) (name : String) (type : BaseType) :
    (Γ.bind name type).frames.tail = Γ.frames.tail := by
  unfold Scope.bind
  split
  · rfl
  · rename_i h
    rw [h]
    rfl

theorem ParametersBound.tail_eq {Γ Δ : Scope} {ps : List Param} (h : ParametersBound Γ ps Δ) :
    Δ.frames.tail = Γ.frames.tail := by
  induction h with
  | nil => rfl
  | cons _ _ ih => rw [ih, Scope.tail_bind]

mutual
/-- A statement adds at most to the innermost frame. -/
theorem WellTyped.tail_eq {ρ : Option BaseType} {Γ Δ : Scope} {s : Stmt} {ns : Types} :
    WellTyped ρ Γ s Δ ns → Δ.frames.tail = Γ.frames.tail
  | .declare _ => Γ.tail_bind _ _
  | .declareInit _ _ _ => Γ.tail_bind _ _
  | .function _ _ _ => rfl
  | .block _ => rfl
  | .branch _ _ hthen => hthen.tail_eq
  | .branchElse _ _ hthen helse => helse.tail_eq.trans hthen.tail_eq
  | .whileLoop _ _ hbody => hbody.tail_eq
  | .forLoop _ _ _ hbody => hbody.tail_eq
  | .retOutside _ => rfl
  | .ret _ _ => rfl
  | .print _ => rfl
  | .expr _ => rfl

theorem AllWellTyped.tail_eq {ρ : Option BaseType} {Γ Δ : Scope} {body : List Stmt} {ns : Types} :
    AllWellTyped ρ Γ body Δ ns → Δ.frames.tail = Γ.frames.tail
  | .nil => rfl
  | .cons h hrest => hrest.tail_eq.trans h.tail_eq
end

end Typing

namespace Walk

open Typing Typing.ValueTy

/-! ## Checking with the rules -/

/-- A walk from `w` has come to `w'` with nothing reported: `Δ` is in scope now, and the
expressions of `ns` have got their types. -/
structure Reaches (w : Walk) (Δ : Scope) (ns : Types) (w' : Walk) : Prop where
  scope : w'.symbols.scope = Δ
  returns : w'.returns = w.returns
  findings : w'.findings = w.findings.after ns

namespace Reaches

variable {w w' w'' : Walk} {Δ Ε : Scope} {ns ns' : Types}

theorem refl (w : Walk) : Reaches w w.symbols.scope [] w := ⟨rfl, rfl, rfl⟩

theorem trans (h : Reaches w Δ ns w') (h' : Reaches w' Ε ns' w'') : Reaches w Ε (ns ++ ns') w'' := by
  refine ⟨h'.scope, h'.returns.trans h.returns, ?_⟩
  rw [h'.findings, h.findings, Findings.after_after]

end Reaches

section Parts

variable {w : Walk} {e : Expr} {t : ValueTy} {ns : Types}

theorem infer_run (h : HasType w.symbols.scope e t ns) :
    infer e w = (t.toTy, { w with findings := w.findings.after ns }) := by
  change ((Typing.infer w.symbols e w.findings).1,
    { w with findings := (Typing.infer w.symbols e w.findings).2 }) = _
  rw [infer_of_hasType e h]

theorem reaches_evaluate (h : HasType w.symbols.scope e t ns) :
    Reaches w w.symbols.scope ns (evaluate e w).2 := by
  unfold evaluate
  rw [bind_run, infer_run h]
  exact ⟨rfl, rfl, rfl⟩

theorem reaches_unless {c : Ty → Bool} {fault : Ty → Fault} {p : Location}
    (h : HasType w.symbols.scope e t ns) (hc : c t.toTy = true) :
    Reaches w w.symbols.scope ns ((do
      let found ← infer e
      unless c found do report (fault found) p : StateM Walk Unit) w).2 := by
  rw [bind_run, infer_run h]
  simp only [hc, ↓reduceIte]
  exact ⟨rfl, rfl, rfl⟩

theorem reaches_condition (construct : Construct) (h : HasType w.symbols.scope e t ns)
    (htests : t.Tests) : Reaches w w.symbols.scope ns (condition construct e w).2 :=
  reaches_unless h (tests_iff.mp htests)

theorem reaches_clause {Allowed : ValueTy → Prop} {visit : Expr → StateM Walk Unit}
    (h : ClauseTyped w.symbols.scope Allowed e ns)
    (hvisit : ∀ {t : ValueTy} {ns : Types}, HasType w.symbols.scope e t ns → Allowed t →
      Reaches w w.symbols.scope ns (visit e w).2) :
    Reaches w w.symbols.scope ns (clause e visit w).2 := by
  unfold clause
  cases h with
  | omitted => exact Reaches.refl w
  | given hgiven h hallowed =>
    simp only [hgiven, Bool.false_eq_true, ↓reduceIte]
    exact hvisit h hallowed

theorem reaches_initializer (name : String) {type : BaseType}
    (h : HasType w.symbols.scope e t ns) (hfits : Fits type t) :
    Reaches w w.symbols.scope ns (initializer name type (some e) w).2 :=
  reaches_unless h (fits_iff.mp hfits)

/-- What a return does depends on the function around it, if there is one. -/
theorem ret_run (value : Expr) (p : Location) (w : Walk) :
    ret value p w = match w.returns with
      | none => evaluate value w
      | some expected => (do
          let found ← infer value
          unless Ty.accepts expected found do report (.returned expected found) p) w := by
  obtain ⟨symbols, returns, findings⟩ := w
  cases returns <;> rfl

theorem reaches_ret {p : Location} (h : HasType w.symbols.scope e t ns)
    (hfits : ∀ returns ∈ w.returns, Fits returns t) :
    Reaches w w.symbols.scope ns (ret e p w).2 := by
  rw [ret_run]
  cases hreturns : w.returns with
  | none => exact reaches_evaluate h
  | some expected => exact reaches_unless h (fits_iff.mp (hfits expected hreturns))

theorem parameter_run {p : Param} (h : w.symbols.scope.Fresh p.name) :
    parameter p w = ((), { w with symbols := w.symbols.bind p.name p.type }) := by
  have hdeclare : declare (fun t => t.declareVariable p.name p.type p.location) w = _ :=
    declare_of_ok (SymbolTable.declareVariable_of_fresh h _ _)
  unfold parameter
  rw [bind_run, hdeclare]
  rfl

theorem reaches_parameters {ps : List Param} {Δ : Scope} :
    ∀ {w : Walk}, ParametersBound w.symbols.scope ps Δ →
      Reaches w Δ [] (ps.forM parameter w).2 := by
  induction ps with
  | nil =>
    intro w h
    cases h
    exact Reaches.refl w
  | cons p ps ih =>
    intro w h
    cases h with
    | cons hfresh hrest =>
      have hrun : ((p :: ps).forM parameter w).2 = (ps.forM parameter (parameter p w).2).2 := rfl
      rw [← SymbolTable.scope_bind] at hrest
      rw [hrun, parameter_run hfresh]
      have h := ih (w := { w with symbols := w.symbols.bind p.name p.type }) hrest
      exact ⟨h.scope, h.returns, h.findings⟩

theorem reaches_framed {x : StateM Walk Unit} {Δ : Scope}
    (h : Reaches { w with symbols := w.symbols.push } Δ ns
      (x { w with symbols := w.symbols.push }).2)
    (htail : Δ.frames.tail = w.symbols.scope.frames) :
    Reaches w (w.symbols.scope.leave Δ) ns (framed x w).2 := by
  refine ⟨?_, h.returns, h.findings⟩
  have hscope := h.scope
  have hne : Δ.frames.tail ≠ [] := by
    rw [htail]
    exact SymbolTable.scope_frames_ne_nil
  rw [← hscope] at hne
  refine (SymbolTable.scope_pop hne).trans ?_
  rw [hscope, htail]
  rfl

theorem reaches_returning {x : StateM Walk Unit} {Δ : Scope} {type : BaseType}
    (h : Reaches { w with returns := some type } Δ ns (x { w with returns := some type }).2) :
    Reaches w Δ ns (returning type x w).2 :=
  ⟨h.scope, rfl, h.findings⟩

/-- Runs the parameters and the body of a function, with a frame for each. -/
theorem reaches_call {x : StateM Walk Unit} {returns : BaseType} {params : List Param}
    {Δ Ε : Scope} (hparams : ParametersBound w.symbols.scope.push params Δ)
    (htail : Ε.frames.tail = Δ.frames)
    (hx : ∀ w' : Walk, w'.returns = some returns → w'.symbols.scope = Δ.push →
      Reaches w' Ε ns (x w').2) :
    Reaches w (w.symbols.scope.leave Ε) ns
      (returning returns (framed do
        params.forM parameter
        framed x) w).2 := by
  apply reaches_returning
  -- The frame of the parameters stays below that of the body, and is left behind it.
  have hfirst : Reaches { w with returns := some returns, symbols := w.symbols.push } Δ [] _ :=
    reaches_parameters hparams
  have hbody := reaches_framed (hx _ hfirst.returns (congrArg Scope.push hfirst.scope))
    (htail.trans (congrArg Scope.frames hfirst.scope.symm))
  have hsecond := hfirst.trans hbody
  rw [hfirst.scope] at hsecond
  have houter : (Δ.leave Ε).frames.tail = w.symbols.scope.frames := hparams.tail_eq
  have hrun := reaches_framed (w := { w with returns := some returns })
    (x := params.forM parameter >>= fun _ => framed x) hsecond houter
  exact hrun

end Parts

theorem visit_declareVar_run {w : Walk} {name : String} {type : BaseType} {init : Option Expr}
    {p : Location} (h : w.symbols.scope.Fresh name) :
    visit (.declareVar name type init p) w =
      initializer name type init { w with symbols := w.symbols.bind name type } := by
  have hdeclare : declare (fun t => t.declareVariable name type p) w = _ :=
    declare_of_ok (SymbolTable.declareVariable_of_fresh h _ _)
  simp only [visit]
  rw [bind_run, hdeclare]
  rfl

theorem visit_declareFun_run {w : Walk} {name : String} {returns : BaseType} {params : List Param}
    {body : List Stmt} {p : Location} (h : w.symbols.scope.functions name = none) :
    visit (.declareFun name returns params body p) w =
      returning returns (framed do
        params.forM parameter
        framed (visitAll body))
        { w with symbols := { w.symbols with
            known := (name, ⟨returns, params.map Param.type⟩) :: w.symbols.known } } := by
  have hdeclare : declare (fun t =>
      t.declareFunction name ⟨returns, params.map Param.type⟩ p) w = _ :=
    declare_of_ok (SymbolTable.declareFunction_of_none h _ _)
  simp only [visit]
  rw [bind_run, hdeclare]
  rfl

mutual
theorem reaches_visit : (s : Stmt) → ∀ {ρ : Option BaseType} {Γ Δ : Scope} {ns : Types},
    WellTyped ρ Γ s Δ ns → ∀ w : Walk, w.returns = ρ → w.symbols.scope = Γ →
      Reaches w Δ ns (visit s w).2
  | .declareVar name type init p, _, _, _, _, h, w, hρ, hΓ => by
    cases h with
    | declare hfresh =>
      subst hΓ
      rw [visit_declareVar_run hfresh]
      exact ⟨SymbolTable.scope_bind _ _ _, rfl, rfl⟩
    | declareInit hfresh h hfits =>
      subst hΓ
      rw [visit_declareVar_run hfresh]
      rw [← SymbolTable.scope_bind] at h ⊢
      have hinit := reaches_initializer (w := { w with symbols := w.symbols.bind name type })
        name h hfits
      exact ⟨hinit.scope, hinit.returns, hinit.findings⟩
  | .declareFun name returns params body p, _, _, _, _, h, w, hρ, hΓ => by
    cases h with
    | function hname hparams hbody =>
      subst hΓ
      rw [visit_declareFun_run hname]
      rw [← SymbolTable.scope_addFunction] at hparams
      have hrun := reaches_call (w := { w with symbols := { w.symbols with
        known := (name, ⟨returns, params.map Param.type⟩) :: w.symbols.known } }) hparams
        hbody.tail_eq fun w' hreturns hscope => reaches_visitAll body hbody w' hreturns hscope
      exact ⟨hrun.scope, hrun.returns, hrun.findings⟩
  | .block body p, _, _, _, _, h, w, hρ, hΓ => by
    cases h with
    | block h =>
      subst hΓ
      simp only [visit]
      exact reaches_framed (reaches_visitAll body h _ hρ rfl) h.tail_eq
  | .branch e thenBody none p, _, _, _, _, h, w, hρ, hΓ => by
    cases h with
    | branch h htests hthen =>
      subst hΓ
      simp only [visit]
      have hcondition := reaches_condition .ifBranch h htests
      exact hcondition.trans
        (reaches_visit thenBody hthen _ (hcondition.returns.trans hρ) hcondition.scope)
  | .branch e thenBody (some elseBody) p, _, _, _, _, h, w, hρ, hΓ => by
    cases h with
    | branchElse h htests hthen helse =>
      subst hΓ
      simp only [visit]
      have hcondition := reaches_condition .ifBranch h htests
      have hvisit := hcondition.trans
        (reaches_visit thenBody hthen _ (hcondition.returns.trans hρ) hcondition.scope)
      exact hvisit.trans (reaches_visit elseBody helse _ (hvisit.returns.trans hρ) hvisit.scope)
  | .whileLoop e body p, _, _, _, _, h, w, hρ, hΓ => by
    cases h with
    | whileLoop h htests hbody =>
      subst hΓ
      simp only [visit]
      have hcondition := reaches_condition .whileLoop h htests
      exact hcondition.trans
        (reaches_visit body hbody _ (hcondition.returns.trans hρ) hcondition.scope)
  | .forLoop init e update body p, _, _, _, _, h, w, hρ, hΓ => by
    cases h with
    | forLoop hinit h hupdate hbody =>
      subst hΓ
      simp only [visit]
      have hfirst := reaches_clause hinit fun h _ => reaches_evaluate h
      rw [← hfirst.scope] at h
      have hsecond := hfirst.trans (reaches_clause h fun h htests => reaches_condition .forLoop h htests)
      rw [← hfirst.scope, ← hsecond.scope] at hupdate
      have hthird := hsecond.trans (reaches_clause hupdate fun h _ => reaches_evaluate h)
      rw [← hfirst.scope, ← hsecond.scope] at hbody
      exact hthird.trans (reaches_visit body hbody _ (hthird.returns.trans hρ) hthird.scope)
  | .ret value p, _, _, _, _, h, w, hρ, hΓ => by
    subst hΓ
    simp only [visit]
    cases h with
    | retOutside h =>
      apply reaches_ret h
      intro returns hreturns
      rw [hρ] at hreturns
      cases hreturns
    | ret h hfits =>
      apply reaches_ret h
      intro returns hreturns
      rw [hρ] at hreturns
      cases hreturns
      exact hfits
  | .print value p, _, _, _, _, h, w, hρ, hΓ => by
    cases h with
    | print h =>
      subst hΓ
      simp only [visit]
      exact reaches_evaluate h
  | .expr value p, _, _, _, _, h, w, hρ, hΓ => by
    cases h with
    | expr h =>
      subst hΓ
      simp only [visit]
      exact reaches_evaluate h

theorem reaches_visitAll : (body : List Stmt) → ∀ {ρ : Option BaseType} {Γ Δ : Scope} {ns : Types},
    AllWellTyped ρ Γ body Δ ns → ∀ w : Walk, w.returns = ρ → w.symbols.scope = Γ →
      Reaches w Δ ns (visitAll body w).2
  | [], _, _, _, _, h, w, hρ, hΓ => by
    cases h with
    | nil =>
      subst hΓ
      simp only [visitAll]
      exact Reaches.refl w
  | s :: rest, _, _, _, _, h, w, hρ, hΓ => by
    cases h with
    | cons h hrest =>
      simp only [visitAll]
      have hfirst := reaches_visit s h w hρ hΓ
      exact hfirst.trans (reaches_visitAll rest hrest _ (hfirst.returns.trans hρ) hfirst.scope)
end

end Walk
end MiniCheck
