import MiniCheck.Proofs.Grammar.Numbering
import MiniCheck.Proofs.Typing.Symbols

/-!
# What a check passes over

A check looks at an expression once or not at all. It passes over what follows a missing
declaration, the values that belong to a refused one, and omitted loop clauses. The numbers
with a type and the numbers passed over are together those of the whole program.
-/

namespace MiniCheck

namespace SymbolTable

variable {t : SymbolTable} {name : String} {n : Nat}

/-- Whether there is a function of that name with `n` parameters. -/
def takes (t : SymbolTable) (name : String) (n : Nat) : Bool :=
  (t.signatureOf? name).any fun signature => n = signature.params.length

theorem takes_of_none (h : t.signatureOf? name = none) : t.takes name n = false := by
  rw [takes, h]
  rfl

theorem takes_of_some {signature : Signature} (h : t.signatureOf? name = some signature) :
    t.takes name n = decide (n = signature.params.length) := by
  rw [takes, h]
  rfl

end SymbolTable

namespace Expr

mutual
/-- The numbers inside an expression that are passed over. -/
def skipped (t : SymbolTable) : Expr → List Nat
  | binary _ left right _ => left.skipped t ++ right.skipped t
  | unary _ operand _ => operand.skipped t
  | assign name value _ => if (t.typeOf? name).isSome then value.skipped t else value.ids
  | var _ _ | number _ _ | omitted _ => []
  | call name args _ => if t.takes name args.length then allSkipped t args else allIds args

def allSkipped (t : SymbolTable) : List Expr → List Nat
  | [] => []
  | e :: es => e.skipped t ++ allSkipped t es
end

/-- As a clause of a loop an omitted expression is passed over too. -/
def clauseSkipped (t : SymbolTable) (e : Expr) : List Nat :=
  if e.isOmitted then e.ids else e.skipped t

end Expr

namespace Stmt

mutual
/-- The numbers inside a statement that are passed over, if `t` is in front of it. -/
def skipped (t : SymbolTable) : Stmt → List Nat
  | declareVar _ _ none _ => []
  | declareVar name type (some init) p =>
    match t.declareVariable name type p with
    | .ok t' => init.skipped t'
    | .error _ => init.ids
  | declareFun name returns params body p =>
    match t.declareFunction name ⟨returns, params.map Param.type⟩ p with
    | .ok t' => allSkipped (t'.inFunction params) body
    | .error _ => allIdsBy Expr.ids body
  | block body _ => allSkipped t.push body
  | branch e thenBody none _ => e.skipped t ++ thenBody.skipped t
  | branch e thenBody (some elseBody) _ =>
    e.skipped t ++ thenBody.skipped t ++ elseBody.skipped (t.after thenBody)
  | whileLoop e body _ => e.skipped t ++ body.skipped t
  | forLoop init e update body _ =>
    init.clauseSkipped t ++ e.clauseSkipped t ++ update.clauseSkipped t ++ body.skipped t
  | ret value _ | print value _ | expr value _ => value.skipped t

def allSkipped (t : SymbolTable) : List Stmt → List Nat
  | [] => []
  | s :: rest => s.skipped t ++ allSkipped (t.after s) rest
end

end Stmt

namespace Typing

/-! ## Accounts of what is recorded and what is skipped -/

section Accounts

variable {σ α β : Type} {recorded : σ → List Nat}

/-- From `s` on, the numbers that `x` records and those that it skips make up `ids`. -/
def Accounts (recorded : σ → List Nat) (x : StateM σ α) (s : σ) (ids skipped : List Nat) : Prop :=
  (recorded (x s).2 ++ skipped).Perm (recorded s ++ ids)

namespace Accounts

variable {x : StateM σ α} {g : α → StateM σ β} {s : σ} {ids ids' skipped skipped' : List Nat}

/-- A step that records nothing skips everything. -/
theorem of_eq (h : recorded (x s).2 = recorded s) (ids : List Nat) :
    Accounts recorded x s ids ids := by
  unfold Accounts
  rw [h]

theorem bind (hx : Accounts recorded x s ids skipped)
    (hg : Accounts recorded (g (x s).1) (x s).2 ids' skipped') :
    Accounts recorded (x >>= g) s (ids ++ ids') (skipped ++ skipped') := by
  unfold Accounts at hx hg ⊢
  rw [bind_run]
  rw [List.perm_iff_count] at hx hg ⊢
  -- How often each number occurs adds up over the two steps.
  intro i
  have hfirst := hx i
  have hsecond := hg i
  simp only [List.count_append] at hfirst hsecond ⊢
  omega

theorem ite {p : Prop} [Decidable p] {y : StateM σ α} (hx : Accounts recorded x s ids skipped)
    (hy : Accounts recorded y s ids skipped) :
    Accounts recorded (if p then x else y) s ids skipped := by
  split
  · exact hx
  · exact hy

theorem of_eq_bind (hx : recorded (x s).2 = recorded s)
    (hg : Accounts recorded (g (x s).1) (x s).2 ids skipped) :
    Accounts recorded (x >>= g) s ids skipped :=
  (of_eq hx []).bind hg

/-- Other numbers can be skipped beforehand. -/
theorem skip (h : Accounts recorded x s ids skipped) (others : List Nat) :
    Accounts recorded x s (others ++ ids) (others ++ skipped) :=
  bind (x := (pure () : StateM σ Unit)) (g := fun _ => x) (of_eq rfl others) h

/-- Only the last step skips nothing. -/
theorem bind_all (hx : Accounts recorded x s ids skipped)
    (hg : ∀ a s, Accounts recorded (g a) s ids' []) :
    Accounts recorded (x >>= g) s (ids ++ ids') skipped := by
  have h := hx.bind (hg (x s).1 (x s).2)
  rwa [List.append_nil] at h

/-- The last step records nothing. -/
theorem bind_of_eq (hx : Accounts recorded x s ids skipped)
    (hg : ∀ a s, recorded (g a s).2 = recorded s) :
    Accounts recorded (x >>= g) s ids skipped := by
  have h := hx.bind_all (fun a s => of_eq (hg a s) [])
  rwa [List.append_nil] at h

end Accounts

end Accounts

end Typing

/-! ## Expressions -/

/-- The numbers that have a type. -/
def Findings.recorded (f : Findings) : List Nat := f.types.map Prod.fst

namespace Typing

abbrev AccountsFindings {α : Type} (x : StateM Findings α) (f : Findings)
    (ids skipped : List Nat) : Prop :=
  Accounts Findings.recorded x f ids skipped

section Expressions

theorem recorded_operation (op : BinaryOp) (left right : Ty) (p : Location) (f : Findings) :
    (operation op left right p f).2.recorded = f.recorded := by
  unfold operation
  cases op.isLogical with
  | true => rfl
  | false =>
    cases left.isNumeric && right.isNumeric with
    | true => cases op.isArithmetic <;> rfl
    | false => cases op.isArithmetic <;> rfl

theorem recorded_prefixed (op : UnaryOp) (found : Ty) (p : Location) (f : Findings) :
    (prefixed op found p f).2.recorded = f.recorded := by
  cases op with
  | not => rfl
  | neg =>
    unfold prefixed
    cases found.isNumeric <;> rfl

theorem accounts_record (m : Mark) (t : Ty) (f : Findings) :
    AccountsFindings (Findings.record m t) f [m.id] [] := by
  change (m.id :: f.recorded ++ []).Perm (f.recorded ++ [m.id])
  rw [List.append_nil]
  exact (List.perm_append_singleton m.id f.recorded).symm

/-- A report beforehand changes nothing. -/
theorem accounts_report {α : Type} {x : StateM Findings α} {ids skipped : List Nat}
    (hx : ∀ f, AccountsFindings x f ids skipped) (fault : Fault) (p : Location) (f : Findings) :
    AccountsFindings (Findings.report fault p >>= fun _ => x) f ids skipped :=
  .of_eq_bind rfl (hx _)

/-- After a report that stands for everything inside, only the expression itself is recorded. -/
theorem accounts_report_record (fault : Fault) (m : Mark) (t : Ty) (inside : List Nat)
    (f : Findings) :
    AccountsFindings (do
      Findings.report fault m.location
      Findings.record m t) f (inside ++ [m.id]) inside := by
  have h := (accounts_report (accounts_record m t) fault m.location f).skip inside
  rwa [List.append_nil] at h

variable (t : SymbolTable)

mutual
theorem accounts_infer : (e : Expr) → ∀ f : Findings,
    AccountsFindings (infer t e) f e.ids (e.skipped t)
  | .binary op left right m, f => by
    simp only [infer, Expr.ids, Expr.skipped, List.append_assoc]
    refine (accounts_infer left f).bind ((accounts_infer right _).bind_all fun r f => ?_)
    exact .of_eq_bind (recorded_operation _ _ _ _ _) (accounts_record m _ _)
  | .unary op operand m, f => by
    simp only [infer, Expr.ids, Expr.skipped]
    refine (accounts_infer operand f).bind_all fun found f => ?_
    exact .of_eq_bind (recorded_prefixed _ _ _ _) (accounts_record m _ _)
  | .assign name value m, f => by
    simp only [infer, Expr.ids, Expr.skipped]
    cases t.typeOf? name with
    | none => exact accounts_report_record _ m _ value.ids f
    | some target =>
      refine (accounts_infer value f).bind_all fun found f => ?_
      exact .ite (accounts_record m _ f) (accounts_report (accounts_record m _) _ _ f)
  | .var name m, f => by
    simp only [infer, Expr.ids, Expr.skipped]
    cases t.typeOf? name with
    | none => exact accounts_report_record _ m _ [] f
    | some type => exact accounts_record m _ f
  | .number lexeme m, f => by
    simp only [infer, Expr.ids, Expr.skipped]
    exact accounts_record m _ f
  | .omitted m, f => by
    simp only [infer, Expr.ids, Expr.skipped]
    exact accounts_record m _ f
  | .call name args m, f => by
    simp only [infer, Expr.ids, Expr.skipped]
    cases hname : t.signatureOf? name with
    | none =>
      simp only [SymbolTable.takes_of_none hname, Bool.false_eq_true, ↓reduceIte]
      exact accounts_report_record _ m _ (Expr.allIds args) f
    | some signature =>
      rw [SymbolTable.takes_of_some hname]
      by_cases hlength : args.length = signature.params.length
      · simp only [hlength, decide_true, ↓reduceIte]
        exact (accounts_inferArguments name 1 args signature.params hlength f).bind_all
          fun _ f => accounts_record m _ f
      · simp only [hlength, decide_false, Bool.false_eq_true, ↓reduceIte]
        exact accounts_report_record _ m _ (Expr.allIds args) f

theorem accounts_inferArguments (function : String) (position : Nat) :
    (args : List Expr) → (params : List BaseType) → args.length = params.length →
      ∀ f : Findings, AccountsFindings (inferArguments t function position args params) f
        (Expr.allIds args) (Expr.allSkipped t args)
  | [], [], _, f => by
    unfold inferArguments
    exact .of_eq rfl []
  | arg :: args, param :: params, h, f => by
    simp only [inferArguments, Expr.allIds, Expr.allSkipped]
    have hrest := accounts_inferArguments function (position + 1) args params
      (Nat.succ.inj h)
    exact (accounts_infer arg f).bind (.ite (hrest _) (accounts_report hrest _ _ _))
end

end Expressions

end Typing

namespace Walk

open Typing

/-! ## Statements -/

def recorded (w : Walk) : List Nat := w.findings.recorded

abbrev AccountsWalk {α : Type} (x : StateM Walk α) (w : Walk) (ids skipped : List Nat) : Prop :=
  Accounts recorded x w ids skipped

theorem recorded_declare (d : SymbolTable → Except Diagnostic SymbolTable) (w : Walk) :
    (declare d w).2.recorded = w.recorded := by
  cases hd : d w.symbols with
  | ok t =>
    rw [declare_of_ok hd]
    rfl
  | error fault =>
    rw [declare_of_error hd]
    rfl

theorem recorded_parameters (ps : List Param) : ∀ w : Walk,
    (ps.forM parameter w).2.recorded = w.recorded := by
  induction ps with
  | nil => exact fun _ => rfl
  | cons p ps ih =>
    intro w
    have hfirst : (parameter p w).2.recorded = w.recorded := by
      unfold parameter
      rw [bind_run]
      exact recorded_declare _ w
    exact (ih (parameter p w).2).trans hfirst

/-- What is done with the type of an expression records nothing. -/
theorem accounts_infer_bind {g : Ty → StateM Walk Unit}
    (hg : ∀ t w, (g t w).2.recorded = w.recorded) (e : Expr) (w : Walk) :
    AccountsWalk (infer e >>= g) w e.ids (e.skipped w.symbols) :=
  Accounts.bind_of_eq (Typing.accounts_infer w.symbols e w.findings) hg

theorem recorded_unless {c : Bool} (fault : Fault) (p : Location) (w : Walk) :
    ((unless c do report fault p : StateM Walk Unit) w).2.recorded = w.recorded := by
  cases c <;> rfl

theorem accounts_evaluate (e : Expr) (w : Walk) :
    AccountsWalk (evaluate e) w e.ids (e.skipped w.symbols) :=
  accounts_infer_bind (fun _ _ => rfl) e w

theorem accounts_condition (construct : Construct) (e : Expr) (w : Walk) :
    AccountsWalk (condition construct e) w e.ids (e.skipped w.symbols) :=
  accounts_infer_bind (fun _ w => recorded_unless _ _ w) e w

theorem accounts_clause {visit : Expr → StateM Walk Unit} {e : Expr} {w : Walk}
    (h : AccountsWalk (visit e) w e.ids (e.skipped w.symbols)) :
    AccountsWalk (clause e visit) w e.ids (e.clauseSkipped w.symbols) := by
  unfold clause Expr.clauseSkipped
  split
  · exact .of_eq rfl e.ids
  · exact h

theorem accounts_ret (value : Expr) (p : Location) (w : Walk) :
    AccountsWalk (ret value p) w value.ids (value.skipped w.symbols) := by
  refine accounts_infer_bind (fun found w => ?_) value w
  obtain ⟨symbols, returns, findings⟩ := w
  cases returns with
  | none => rfl
  | some expected => exact recorded_unless _ _ _

theorem accounts_function {f : SymbolTable → List Nat} {x : StateM Walk Unit} {ids : List Nat}
    (hx : ∀ w, AccountsWalk x w ids (f w.symbols)) (returns : BaseType) (params : List Param)
    (w : Walk) :
    AccountsWalk (returning returns (framed do
      params.forM parameter
      framed x)) w ids (f (w.symbols.inFunction params)) := by
  let entered : Walk := { w with returns := some returns, symbols := w.symbols.push }
  have hf : f (params.forM parameter entered).2.symbols.push = f (w.symbols.inFunction params) :=
    congrArg (fun t => f t.push) (symbols_parameters params entered)
  rw [← hf]
  exact Accounts.of_eq_bind (x := params.forM parameter) (g := fun _ => framed x)
    (recorded_parameters params entered) (hx { (params.forM parameter entered).2 with
      symbols := (params.forM parameter entered).2.symbols.push })

mutual
theorem accounts_visit : (s : Stmt) → ∀ w : Walk,
    AccountsWalk (visit s) w (s.idsBy Expr.ids) (s.skipped w.symbols)
  | .declareVar name type none p, w => by
    simp only [visit, Stmt.idsBy, Stmt.skipped]
    refine .of_eq_bind (recorded_declare _ w) (.ite ?_ ?_)
    · exact .of_eq rfl []
    · exact .of_eq rfl []
  | .declareVar name type (some init) p, w => by
    simp only [visit, Stmt.idsBy, Stmt.skipped]
    refine .of_eq_bind (recorded_declare _ w) ?_
    cases hd : w.symbols.declareVariable name type p with
    | ok t =>
      rw [declare_of_ok hd]
      exact accounts_infer_bind (fun _ w => recorded_unless _ _ w) init { w with symbols := t }
    | error fault =>
      rw [declare_of_error hd]
      exact .of_eq rfl init.ids
  | .declareFun name returns params body p, w => by
    simp only [visit, Stmt.idsBy, Stmt.skipped]
    refine .of_eq_bind (recorded_declare _ w) ?_
    cases hd : w.symbols.declareFunction name ⟨returns, params.map Param.type⟩ p with
    | ok t =>
      rw [declare_of_ok hd]
      exact accounts_function (f := fun t => Stmt.allSkipped t body) (accounts_visitAll body)
        returns params { w with symbols := t }
    | error fault =>
      rw [declare_of_error hd]
      exact .of_eq rfl _
  | .block body p, w => by
    simp only [visit, Stmt.idsBy, Stmt.skipped]
    exact accounts_visitAll body { w with symbols := w.symbols.push }
  | .branch e thenBody none p, w => by
    simp only [visit, Stmt.idsBy, Stmt.skipped]
    have hthen := accounts_visit thenBody (condition .ifBranch e w).2
    rw [symbols_condition] at hthen
    exact (accounts_condition .ifBranch e w).bind hthen
  | .branch e thenBody (some elseBody) p, w => by
    simp only [visit, Stmt.idsBy, Stmt.skipped, List.append_assoc]
    have hthen := accounts_visit thenBody (condition .ifBranch e w).2
    have helse := accounts_visit elseBody (visit thenBody (condition .ifBranch e w).2).2
    rw [symbols_condition] at hthen
    rw [symbols_visit, symbols_condition] at helse
    exact (accounts_condition .ifBranch e w).bind (hthen.bind helse)
  | .whileLoop e body p, w => by
    simp only [visit, Stmt.idsBy, Stmt.skipped]
    have hbody := accounts_visit body (condition .whileLoop e w).2
    rw [symbols_condition] at hbody
    exact (accounts_condition .whileLoop e w).bind hbody
  | .forLoop init e update body p, w => by
    simp only [visit, Stmt.idsBy, Stmt.skipped, List.append_assoc]
    -- No clause declares anything, so the body is checked with the table in front of the loop.
    let first := (clause init evaluate w).2
    let second := (clause e (condition .forLoop) first).2
    let third := (clause update evaluate second).2
    have hfirst : first.symbols = w.symbols := symbols_clause init rfl
    have hsecond : second.symbols = w.symbols :=
      (symbols_clause e (symbols_condition _ e _)).trans hfirst
    have hthird : third.symbols = w.symbols := (symbols_clause update rfl).trans hsecond
    have hcondition := accounts_clause (accounts_condition .forLoop e first)
    have hupdate := accounts_clause (accounts_evaluate update second)
    have hbody := accounts_visit body third
    rw [hfirst] at hcondition
    rw [hsecond] at hupdate
    rw [hthird] at hbody
    exact (accounts_clause (accounts_evaluate init w)).bind (hcondition.bind (hupdate.bind hbody))
  | .ret value p, w => by
    simp only [visit, Stmt.idsBy, Stmt.skipped]
    exact accounts_ret value p w
  | .print value p, w | .expr value p, w => by
    simp only [visit, Stmt.idsBy, Stmt.skipped]
    exact accounts_evaluate value w

theorem accounts_visitAll : (body : List Stmt) → ∀ w : Walk,
    AccountsWalk (visitAll body) w (Stmt.allIdsBy Expr.ids body) (Stmt.allSkipped w.symbols body)
  | [], w => by
    simp only [visitAll, Stmt.allIdsBy, Stmt.allSkipped]
    exact .of_eq rfl []
  | s :: rest, w => by
    simp only [visitAll, Stmt.allIdsBy, Stmt.allSkipped]
    rw [← symbols_visit s w]
    exact (accounts_visit s w).bind (accounts_visitAll rest _)
end

end Walk

namespace Program

open Grammar

/-- The numbers of the expressions that a check of the program passes over. -/
def skipped (p : Program) : List Nat := Stmt.allSkipped .empty p

theorem types_append_skipped_perm (p : Program) :
    (((Analysis.ofProgram p).types.map Prod.fst) ++ skipped p).Perm (ids p) := by
  have h : (((Walk.visitAll p).run Walk.start).2.recorded ++ skipped p).Perm ([] ++ ids p) :=
    Walk.accounts_visitAll p Walk.start
  rw [List.nil_append] at h
  refine List.Perm.trans (List.Perm.append_right _ ?_) h
  change (((Walk.visitAll p).run Walk.start).2.findings.types.reverse.map Prod.fst).Perm _
  rw [List.map_reverse]
  exact List.reverse_perm _

theorem nodup_ids_of_ofTokens {ts : List Token} {p : Program} (h : ofTokens ts = .ok p) :
    (ids p).Nodup := by
  obtain ⟨D, _, _, _, rfl⟩ := ofTokens_eq_ok_iff.mp h
  have hids : ids (D.tree 0) = _ := D.ids_tree 0
  rw [hids]
  exact List.nodup_range'

/-- Whenever the check of a program that was read records a type, the expression has none
yet, and those that have one in the end are all but the ones passed over. -/
theorem types_of_ofTokens {ts : List Token} {p : Program} (h : ofTokens ts = .ok p) :
    (∀ before i t after, (Analysis.ofProgram p).types = before ++ (i, t) :: after →
      before.lookup i = none) ∧
    ∀ i, i ∈ (Analysis.ofProgram p).types.map Prod.fst ↔ i ∈ ids p ∧ i ∉ skipped p := by
  have hperm := types_append_skipped_perm p
  have hnodup := hperm.nodup_iff.mpr (nodup_ids_of_ofTokens h)
  obtain ⟨htypes, _, hdisjoint⟩ := List.nodup_append.mp hnodup
  constructor
  · intro before i t after heq
    rw [heq, List.map_append, List.map_cons] at htypes
    have hbefore := (List.nodup_append.mp htypes).2.2
    rw [List.lookup_eq_none_iff]
    intro record hrecord
    have hne := hbefore _ (List.mem_map_of_mem hrecord) i List.mem_cons_self
    exact bne_iff_ne.mpr (Ne.symm hne)
  · intro i
    rw [← hperm.mem_iff, List.mem_append]
    constructor
    · intro hi
      exact ⟨.inl hi, fun hskipped => hdisjoint i hi i hskipped rfl⟩
    · rintro ⟨hi, hskipped⟩
      exact hi.resolve_right hskipped

/-- Of `int x = y = 1; int x = 2;` only the assignment gets a type. -/
theorem types_of_ofTokens_refused :
    let token : Token.Kind → String → Token := fun k lexeme => ⟨k, lexeme, .first⟩
    let ts : List Token := [token .intWord "int", token .name "x", token .equal "=",
      token .name "y", token .equal "=", token .number "1", token .semicolon ";",
      token .intWord "int", token .name "x", token .equal "=", token .number "2",
      token .semicolon ";"]
    let p : Program := [
      .declareVar "x" .int (some (.assign "y" (.number "1" ⟨0, .first⟩) ⟨1, .first⟩)) .first,
      .declareVar "x" .int (some (.number "2" ⟨2, .first⟩)) .first]
    ofTokens ts = .ok p ∧ ids p = [0, 1, 2] ∧ skipped p = [0, 2] ∧
      (∀ before i t after, (Analysis.ofProgram p).types = before ++ (i, t) :: after →
        before.lookup i = none) ∧
      ∀ i, i ∈ (Analysis.ofProgram p).types.map Prod.fst ↔ i ∈ ids p ∧ i ∉ skipped p := by
  intro token ts p
  have hp : ofTokens ts = .ok p := rfl
  exact ⟨hp, rfl, rfl, types_of_ofTokens hp⟩

end Program
end MiniCheck
