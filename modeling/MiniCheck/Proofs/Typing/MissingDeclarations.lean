import MiniCheck.Proofs.Typing.Prelude

/-!
# A missing declaration is reported where it is missed

With the declaration put in front of the program every other report comes again. The program
must not declare the name itself, for there the declaration would be refused or would hide
the one in front.
-/

namespace MiniCheck

/-! ## Statements -/

/-- Two walks at one place, the second one with the prelude below everything. -/
structure Prelude.Before (b : Prelude) (w w' : Walk) : Prop where
  symbols : w'.symbols = b.under w.symbols
  returns : w'.returns = w.returns
  findings : Typing.FindingsRemain b w.findings w'.findings

namespace Walk

open Typing
open Ty (Below)

variable {b : Prelude}

abbrev RelatesWalk {α : Type} (b : Prelude) (A : α → α → Prop) (x y : StateM Walk α) : Prop :=
  Relates b.Before A x y

theorem relates_report {fault fault' : Fault} (h : fault.kind = fault'.kind) (p : Location) :
    RelatesWalk b Eq (report fault p) (report fault' p) := fun w w' hw =>
  have hreport := Typing.relates_report h p w.findings w'.findings hw.findings
  ⟨rfl, hw.symbols, hw.returns, hreport.2⟩

theorem relates_infer (hb : b.Valued) (e : Expr) : RelatesWalk b Below (infer e) (infer e) := by
  intro w w' hw
  have hinfer := Typing.relates_infer hb w.symbols e w.findings w'.findings hw.findings
  rw [← hw.symbols] at hinfer
  exact ⟨hinfer.1, hw.symbols, hw.returns, hinfer.2⟩

theorem relates_declare {d : SymbolTable → Except Diagnostic SymbolTable}
    (h : ∀ t, d (b.under t) = (d t).map b.under) : RelatesWalk b Eq (declare d) (declare d) := by
  intro w w' hw
  have hsymbols := h w.symbols
  rw [← hw.symbols] at hsymbols
  cases hd : d w.symbols with
  | ok t =>
    rw [hd] at hsymbols
    rw [declare_of_ok hd, declare_of_ok hsymbols]
    exact ⟨rfl, rfl, hw.returns, hw.findings⟩
  | error fault =>
    rw [hd] at hsymbols
    rw [declare_of_error hd, declare_of_error hsymbols]
    exact ⟨rfl, (relates_report rfl fault.location w w' hw).2⟩

theorem relates_framed {x : StateM Walk Unit} (h : RelatesWalk b Eq x x) :
    RelatesWalk b Eq (framed x) (framed x) := by
  intro w w' hw
  have hpush : b.Before { w with symbols := w.symbols.push }
      { w' with symbols := w'.symbols.push } :=
    ⟨congrArg SymbolTable.push hw.symbols, hw.returns, hw.findings⟩
  have hinside := (h _ _ hpush).2
  exact ⟨rfl, congrArg SymbolTable.pop hinside.symbols, hinside.returns, hinside.findings⟩

theorem relates_returning (type : BaseType) {x : StateM Walk Unit} (h : RelatesWalk b Eq x x) :
    RelatesWalk b Eq (returning type x) (returning type x) := by
  intro w w' hw
  have hinside := (h { w with returns := some type } { w' with returns := some type }
    ⟨hw.symbols, rfl, hw.findings⟩).2
  exact ⟨rfl, hinside.symbols, hw.returns, hinside.findings⟩

theorem relates_parameters {ps : List Param} (h : ∀ p ∈ ps, b.has (.ofVariable p.name) = false) :
    RelatesWalk b Eq (ps.forM parameter) (ps.forM parameter) := by
  induction ps with
  | nil => exact .pure rfl
  | cons p ps ih =>
    obtain ⟨hp, hps⟩ := List.forall_mem_cons.mp h
    have hparameter : RelatesWalk b Eq (parameter p) (parameter p) :=
      (relates_declare (Prelude.declareVariable_under hp p.type p.location)).bind fun _ _ _ =>
        .pure rfl
    exact hparameter.bind fun _ _ _ => ih hps

/-- A check of a type that fails still fails when more is known of the type. -/
theorem relates_unless (c : Ty → Bool) (fault : Ty → Fault)
    (hc : ∀ {s t}, Below s t → c t = true → c s = true)
    (hkind : ∀ s t, (fault s).kind = (fault t).kind) (p : Location) {found found' : Ty}
    (h : Below found found') :
    RelatesWalk b Eq (unless c found do report (fault found) p)
      (unless c found' do report (fault found') p) :=
  .ite_of_imp (hc h) (.pure rfl) (relates_report (hkind _ _) p) fun _ _ hw =>
    ⟨rfl, hw.symbols, hw.returns, Remain.of_suffix hw.findings (List.suffix_cons _ _)⟩

section Valued

variable (hb : b.Valued)
include hb

theorem relates_condition (construct : Construct) (e : Expr) :
    RelatesWalk b Eq (condition construct e) (condition construct e) :=
  (relates_infer hb e).bind fun _ _ h =>
    relates_unless Ty.isCondition (.condition construct) (fun h ht => h.isCondition_eq.trans ht)
      (fun _ _ => rfl) _ h

theorem relates_evaluate (e : Expr) : RelatesWalk b Eq (evaluate e) (evaluate e) :=
  (relates_infer hb e).bind fun _ _ _ => .pure rfl

theorem relates_initializer (name : String) (type : BaseType) : (init : Option Expr) →
    RelatesWalk b Eq (initializer name type init) (initializer name type init)
  | none => .pure rfl
  | some init => (relates_infer hb init).bind fun _ _ h =>
    relates_unless (Ty.accepts type) (.initializer name type) (fun h => h.accepts)
      (fun _ _ => rfl) _ h

theorem relates_ret (value : Expr) (p : Location) :
    RelatesWalk b Eq (ret value p) (ret value p) := by
  refine (relates_infer hb value).bind fun found found' h => ?_
  rintro ⟨symbols, returns, findings⟩ ⟨symbols', returns', findings'⟩ hw
  obtain rfl : returns' = returns := hw.returns
  cases returns' with
  | none => exact ⟨rfl, hw⟩
  | some expected =>
    exact relates_unless (Ty.accepts expected) (.returned expected) (fun h => h.accepts)
      (fun _ _ => rfl) p h _ _ hw

end Valued

theorem relates_clause {visit : Expr → StateM Walk Unit} {e : Expr}
    (h : RelatesWalk b Eq (visit e) (visit e)) :
    RelatesWalk b Eq (clause e visit) (clause e visit) :=
  .ite (.pure rfl) h

mutual
theorem relates_visit (hb : b.Valued) : (s : Stmt) → (∀ n ∈ s.declares, b.has n = false) →
    RelatesWalk b Eq (visit s) (visit s)
  | .declareVar name type init p, h => by
    have hname := h (.ofVariable name) List.mem_cons_self
    simp only [visit]
    -- Both tables take the declaration or neither does, so both walks go the same way.
    refine (relates_declare (Prelude.declareVariable_under hname type p)).bind ?_
    rintro taken _ rfl
    exact .ite (relates_initializer hb name type init) (.pure rfl)
  | .declareFun name returns params body p, h => by
    simp only [Stmt.declares, List.forall_mem_cons, List.forall_mem_append,
      List.forall_mem_map] at h
    obtain ⟨hname, hparams, hbody⟩ := h
    simp only [visit]
    refine (relates_declare (Prelude.declareFunction_under hname _ p)).bind ?_
    rintro taken _ rfl
    exact .ite (relates_returning returns (relates_framed
      ((relates_parameters hparams).bind fun _ _ _ =>
        relates_framed (relates_visitAll hb body hbody)))) (.pure rfl)
  | .block body p, h => by
    simp only [visit]
    exact relates_framed (relates_visitAll hb body h)
  | .branch e thenBody none p, h => by
    simp only [visit]
    exact (relates_condition hb _ e).bind fun _ _ _ => relates_visit hb thenBody h
  | .branch e thenBody (some elseBody) p, h => by
    obtain ⟨hthen, helse⟩ := List.forall_mem_append.mp h
    simp only [visit]
    exact (relates_condition hb _ e).bind fun _ _ _ => (relates_visit hb thenBody hthen).bind
      fun _ _ _ => relates_visit hb elseBody helse
  | .whileLoop e body p, h => by
    simp only [visit]
    exact (relates_condition hb _ e).bind fun _ _ _ => relates_visit hb body h
  | .forLoop init e update body p, h => by
    simp only [visit]
    exact (relates_clause (relates_evaluate hb init)).bind fun _ _ _ =>
      (relates_clause (relates_condition hb _ e)).bind fun _ _ _ =>
        (relates_clause (relates_evaluate hb update)).bind fun _ _ _ => relates_visit hb body h
  | .ret value p, _ => by
    simp only [visit]
    exact relates_ret hb value p
  | .print value p, _ | .expr value p, _ => by
    simp only [visit]
    exact relates_evaluate hb value

theorem relates_visitAll (hb : b.Valued) : (body : List Stmt) →
    (∀ n ∈ Stmt.allDeclares body, b.has n = false) →
      RelatesWalk b Eq (visitAll body) (visitAll body)
  | [], _ => by
    simp only [visitAll]
    exact .pure rfl
  | s :: rest, h => by
    obtain ⟨hs, hrest⟩ := List.forall_mem_append.mp h
    simp only [visitAll]
    exact (relates_visit hb s hs).bind fun _ _ _ => relates_visitAll hb rest hrest
end

end Walk

/-! ## Programs -/

namespace Program

open Typing

/-- What a program declares anywhere. -/
def declares (p : Program) : List Symbol := Stmt.allDeclares p

/-- The rest of a program behind declarations that have left the prelude `b`. -/
theorem remain_visitAll {b : Prelude} (hb : b.Valued) {p : Program}
    (h : ∀ n ∈ declares p, b.has n = false) {w : Walk} (hsymbols : w.symbols = b.under .empty)
    (hreturns : w.returns = none) :
    Remain b.settles (Analysis.ofProgram p).diagnostics
      (Analysis.ofWalk (Walk.visitAll p w).2).diagnostics := by
  have hstart : b.Before Walk.start w := ⟨hsymbols, hreturns, Remain.nil _ _⟩
  exact (Walk.relates_visitAll hb p h _ _ hstart).2.findings.reverse

/-- With one name more declared, all other reports come again. -/
theorem outlines_sublist_of_has {b : Prelude} (hb : b.Valued) {n : Symbol}
    (hn : ∀ n', b.has n' = decide (n' = n)) {p : Program} (h : n ∉ declares p) {w : Walk}
    (hsymbols : w.symbols = b.under .empty) (hreturns : w.returns = none) :
    (((Analysis.ofProgram p).diagnostics.filter fun d => d.fault ≠ n.missing).map
      Diagnostic.outline).Sublist
      ((Analysis.ofWalk (Walk.visitAll p w).2).diagnostics.map Diagnostic.outline) := by
  have hdeclares : ∀ n' ∈ declares p, b.has n' = false := by
    intro n' hn'
    rw [hn, decide_eq_false_iff_not]
    rintro rfl
    exact h hn'
  have hfilter : (fun d : Diagnostic => decide (d.fault ≠ n.missing)) =
      fun d => !b.settles d.fault := by
    funext d
    rw [Prelude.settles_eq hn, decide_not]
  rw [hfilter]
  exact remain_visitAll hb hdeclares hsymbols hreturns

/-- With a declaration of `name` put in front of a program that does not declare it, every
report on the program but for those that miss the declaration comes again, in the same order,
of the same kind and at the same place. -/
theorem outlines_sublist_of_declared (p : Program) (name : String) {type : BaseType}
    (htype : type ≠ .void) (q : Location) :
    (.ofVariable name ∉ declares p →
      (((Analysis.ofProgram p).diagnostics.filter
        fun d => d.fault ≠ .undeclaredVariable name).map Diagnostic.outline).Sublist
        ((Analysis.ofProgram (.declareVar name type none q :: p)).diagnostics.map
          Diagnostic.outline)) ∧
    (.ofFunction name ∉ declares p → ∀ params,
      (((Analysis.ofProgram p).diagnostics.filter
        fun d => d.fault ≠ .undeclaredFunction name).map Diagnostic.outline).Sublist
        ((Analysis.ofProgram (.declareFun name type params [] q :: p)).diagnostics.map
          Diagnostic.outline)) := by
  constructor
  · intro h
    exact outlines_sublist_of_has (Prelude.valued_ofVariable name htype)
      (Prelude.has_ofVariable name type) h (w := (Walk.visit (.declareVar name type none q)
        Walk.start).2) rfl rfl
  · intro h params
    let signature : Signature := ⟨type, params.map Param.type⟩
    have hsymbols : (Walk.visit (.declareFun name type params [] q) Walk.start).2.symbols =
        (Prelude.ofFunction name signature).under .empty := by
      rw [Walk.symbols_visit]
      exact SymbolTable.pop_pop_inFunction _ params
    have hreturns : (Walk.visit (.declareFun name type params [] q) Walk.start).2.returns = none :=
      rfl
    exact outlines_sublist_of_has (Prelude.valued_ofFunction name htype)
      (Prelude.has_ofFunction name signature) h hsymbols hreturns

/-- In `int a = v + w; int b = f(v);` three names are missing. With `v` declared as a `float`
the sum no longer fits `a`, and the other two names are still missed. -/
theorem outlines_sublist_of_declared_sum :
    let mark : Nat → Mark := fun i => ⟨i, ⟨1, i⟩⟩
    let q : Location := .first
    let p : Program := [
      .declareVar "a" .int (some (.binary .add (.var "v" (mark 0)) (.var "w" (mark 1)) (mark 2))) q,
      .declareVar "b" .int (some (.call "f" [.var "v" (mark 3)] (mark 4))) q]
    BaseType.float ≠ .void ∧ Symbol.ofVariable "v" ∉ declares p ∧
      Symbol.ofFunction "f" ∉ declares p ∧
      (Analysis.ofProgram (.declareVar "v" .float none q :: p)).diagnostics.map Diagnostic.outline =
        [(.undeclaredVariable, ⟨1, 1⟩), (.initializer, ⟨1, 2⟩), (.undeclaredFunction, ⟨1, 4⟩)] ∧
      (((Analysis.ofProgram p).diagnostics.filter
        fun d => d.fault ≠ .undeclaredVariable "v").map Diagnostic.outline).Sublist
        ((Analysis.ofProgram (.declareVar "v" .float none q :: p)).diagnostics.map
          Diagnostic.outline) ∧
      (((Analysis.ofProgram p).diagnostics.filter
        fun d => d.fault ≠ .undeclaredFunction "f").map Diagnostic.outline).Sublist
        ((Analysis.ofProgram (.declareFun "f" .float [⟨"x", .int, q⟩] [] q :: p)).diagnostics.map
          Diagnostic.outline) := by
  intro mark q p
  have hfloat : BaseType.float ≠ .void := by decide
  have hv : Symbol.ofVariable "v" ∉ declares p := by decide
  have hf : Symbol.ofFunction "f" ∉ declares p := by decide
  exact ⟨hfloat, hv, hf, rfl, (outlines_sublist_of_declared p "v" hfloat q).1 hv,
    (outlines_sublist_of_declared p "f" hfloat q).2 hf _⟩

end Program

end MiniCheck
