import MiniCheck.Proofs.Grammar.Anchoring
import MiniCheck.Proofs.Typing.Silence

/-!
# Where diagnostics point

A check takes the places of its diagnostics from the nodes of the tree. If every node points
at a token that stands for it, then every diagnostic points at a token that it talks about: a
condition that is refused is of type `void`, so it is a name, whatever it does with it.
-/

namespace MiniCheck

open Token (Stands IsNamed IsInExpression)

/-- The tokens that a fault can be found at. -/
def Fault.Concerns : Fault → Token → Prop
  | duplicateVariable name, t | duplicateFunction name, t | undeclaredVariable name, t
  | undeclaredFunction name, t | assignment name _ _, t | argumentCount name _ _, t =>
    t.IsNamed name
  | operands op _ _, t => t.kind = op.sign
  | negation _, t => t.kind = .minus
  | returned _ _, t => t.kind = .returnWord
  | condition _ _, t => t.kind = .name
  | initializer _ _ _, t | argument _ _ _ _, t => t.IsInExpression

/-- The diagnostic has the place of a token that it can be found at. -/
def Diagnostic.Points (ts : List Token) (d : Diagnostic) : Prop :=
  Stands ts d.fault.Concerns d.location

namespace Typing

section Log

variable {σ α β : Type} {log : σ → List Diagnostic} {P : Diagnostic → Prop}

/-- A step that logs nothing but what satisfies `P`. -/
def LogsOnly (log : σ → List Diagnostic) (P : Diagnostic → Prop) (x : StateM σ α) : Prop :=
  ∀ s, (∀ d ∈ log s, P d) → ∀ d ∈ log (x s).2, P d

namespace LogsOnly

theorem of_eq {x : StateM σ α} (h : ∀ s, log (x s).2 = log s) : LogsOnly log P x := by
  intro s hs
  rw [h s]
  exact hs

theorem pure (a : α) : LogsOnly log P (Pure.pure a : StateM σ α) := of_eq fun _ => rfl

/-- The second step is only taken with what the first one can answer. -/
theorem bind {x : StateM σ α} {g : α → StateM σ β} (hx : LogsOnly log P x)
    (hg : ∀ s, LogsOnly log P (g (x s).1)) : LogsOnly log P (x >>= g) :=
  fun s hs => hg s _ (hx s hs)

theorem ite {c : Prop} [Decidable c] {x y : StateM σ α} (hx : c → LogsOnly log P x)
    (hy : ¬ c → LogsOnly log P y) : LogsOnly log P (if c then x else y) := by
  split
  · exact hx ‹_›
  · exact hy ‹_›

end LogsOnly

end Log

/-! ## Expressions -/

section Expressions

variable {ts : List Token}

abbrev PointsFindings {α : Type} (ts : List Token) (x : StateM Findings α) : Prop :=
  LogsOnly Findings.diagnostics (Diagnostic.Points ts) x

theorem points_report {fault : Fault} {p : Location} (h : Stands ts fault.Concerns p) :
    PointsFindings ts (Findings.report fault p) := by
  intro f hf d hd
  rcases List.mem_cons.mp hd with rfl | hd
  · exact h
  · exact hf d hd

theorem points_record (m : Mark) (t : Ty) : PointsFindings ts (Findings.record m t) :=
  .of_eq fun _ => rfl

theorem points_report_record {fault : Fault} {m : Mark} (h : Stands ts fault.Concerns m.location)
    (t : Ty) :
    PointsFindings ts (do
      Findings.report fault m.location
      Findings.record m t) :=
  (points_report h).bind fun _ => points_record m t

theorem points_operation {op : BinaryOp} {p : Location}
    (h : Stands ts (fun t => t.kind = op.sign) p) (left right : Ty) :
    PointsFindings ts (operation op left right p) := by
  have hreport : PointsFindings ts (Findings.report (.operands op left right) p) :=
    points_report h
  unfold operation
  cases op.isLogical with
  | true => exact .pure _
  | false =>
    cases left.isNumeric && right.isNumeric with
    | true => cases op.isArithmetic <;> exact .pure _
    | false => cases op.isArithmetic <;> exact hreport.bind fun _ => .pure _

theorem points_prefixed {op : UnaryOp} {p : Location}
    (h : Stands ts (fun t => t.kind = op.sign) p) (found : Ty) :
    PointsFindings ts (prefixed op found p) := by
  cases op with
  | not => exact .pure _
  | neg => exact .ite (fun _ => .pure _) fun _ => (points_report h).bind fun _ => .pure _

mutual
theorem points_infer (t : SymbolTable) : (e : Expr) → e.Anchored ts → PointsFindings ts (infer t e)
  | .binary op left right m, h => by
    obtain ⟨hsign, hleft, hright⟩ := h
    simp only [infer]
    exact (points_infer t left hleft).bind fun _ => (points_infer t right hright).bind fun _ =>
      (points_operation hsign _ _).bind fun _ => points_record m _
  | .unary op operand m, h => by
    obtain ⟨hsign, hoperand⟩ := h
    simp only [infer]
    exact (points_infer t operand hoperand).bind fun _ =>
      (points_prefixed hsign _).bind fun _ => points_record m _
  | .assign name value m, h => by
    obtain ⟨hname, hvalue⟩ := h
    simp only [infer]
    split
    · exact points_report_record hname _
    · exact (points_infer t value hvalue).bind fun _ =>
        .ite (fun _ => points_record m _) fun _ => points_report_record hname _
  | .var name m, h => by
    have hname : Stands ts (IsNamed name) m.location := h
    simp only [infer]
    split
    · exact points_report_record hname _
    · exact points_record m _
  | .number lexeme m, _ => by
    simp only [infer]
    exact points_record m _
  | .call name args m, h => by
    obtain ⟨hname, hargs⟩ := h
    simp only [infer]
    split
    · exact points_report_record hname _
    · exact .ite
        (fun _ => (points_inferArguments t name 1 args _ hargs).bind fun _ => points_record m _)
        fun _ => points_report_record hname _

theorem points_inferArguments (t : SymbolTable) (function : String) (position : Nat) :
    (args : List Expr) → (params : List BaseType) → Expr.AllAnchored ts args →
      PointsFindings ts (inferArguments t function position args params)
  | arg :: args, param :: params, h => by
    obtain ⟨harg, hargs⟩ := h
    simp only [inferArguments]
    have hrest := points_inferArguments t function (position + 1) args params hargs
    exact (points_infer t arg harg).bind fun _ =>
      .ite (fun _ => hrest) fun _ => (points_report harg.stands).bind fun _ => hrest
  | [], _, _ => by
    unfold inferArguments
    exact .pure _
  | _ :: _, [], _ => by
    unfold inferArguments
    exact .pure _
end

theorem isCondition_operation (op : BinaryOp) (left right : Ty) (p : Location) (f : Findings) :
    (operation op left right p f).1.isCondition = true := by
  unfold operation
  cases op.isLogical with
  | true => rfl
  | false =>
    cases left.isNumeric && right.isNumeric with
    | true =>
      cases op.isArithmetic with
      | true =>
        change (Ty.arithmetic left right).isCondition = true
        unfold Ty.arithmetic
        split <;> rfl
      | false => rfl
    | false => cases op.isArithmetic <;> rfl

theorem isCondition_prefixed (op : UnaryOp) (found : Ty) (p : Location) (f : Findings) :
    (prefixed op found p f).1.isCondition = true := by
  cases op with
  | not => rfl
  | neg => cases found <;> rfl

/-- Only a name can be of type `void`: of a variable, a target or a function. -/
theorem stands_name_of_not_condition {t : SymbolTable} {e : Expr} (h : e.Anchored ts)
    {f : Findings} (hvoid : ¬ (infer t e f).1.isCondition = true) :
    Stands ts (fun s => s.kind = .name) e.location := by
  cases e with
  | binary op left right m =>
    refine absurd ?_ hvoid
    simp only [infer]
    exact isCondition_operation op _ _ m.location _
  | unary op operand m =>
    refine absurd ?_ hvoid
    simp only [infer]
    exact isCondition_prefixed op _ m.location _
  | assign name value m => exact h.1.mono fun _ hn => hn.1
  | var name m => exact Stands.mono h fun _ hn => hn.1
  | number lexeme m =>
    refine absurd ?_ hvoid
    simp only [infer]
    change (Ty.ofLiteral lexeme).isCondition = true
    unfold Ty.ofLiteral
    split <;> rfl
  | omitted m => cases h
  | call name args m => exact h.1.mono fun _ hn => hn.1

end Expressions

end Typing

/-! ## Statements -/

namespace Walk

open Typing

variable {ts : List Token}

abbrev PointsWalk {α : Type} (ts : List Token) (x : StateM Walk α) : Prop :=
  LogsOnly diagnostics (Diagnostic.Points ts) x

theorem points_report {fault : Fault} {p : Location} (h : Stands ts fault.Concerns p) :
    PointsWalk ts (report fault p) := fun w =>
  Typing.points_report h w.findings

theorem points_infer {e : Expr} (h : e.Anchored ts) : PointsWalk ts (infer e) := fun w =>
  Typing.points_infer w.symbols e h w.findings

theorem points_declare {d : SymbolTable → Except Diagnostic SymbolTable}
    (h : ∀ t fault, d t = .error fault → fault.Points ts) : PointsWalk ts (declare d) := by
  intro w
  cases hd : d w.symbols with
  | ok symbols =>
    rw [declare_of_ok hd]
    exact id
  | error fault =>
    rw [declare_of_error hd]
    exact points_report (h _ fault hd) w

theorem points_declareVariable {name : String} {p : Location} (h : Stands ts (IsNamed name) p)
    (type : BaseType) : PointsWalk ts (declare fun t => t.declareVariable name type p) := by
  refine points_declare fun t fault hfault => ?_
  unfold SymbolTable.declareVariable at hfault
  split at hfault
  · cases hfault
    exact h
  · cases hfault

theorem points_declareFunction {name : String} {p : Location} (h : Stands ts (IsNamed name) p)
    (signature : Signature) :
    PointsWalk ts (declare fun t => t.declareFunction name signature p) := by
  refine points_declare fun t fault hfault => ?_
  unfold SymbolTable.declareFunction at hfault
  split at hfault
  · cases hfault
    exact h
  · cases hfault

theorem points_framed {x : StateM Walk Unit} (h : PointsWalk ts x) : PointsWalk ts (framed x) :=
  fun w => h { w with symbols := w.symbols.push }

theorem points_returning (type : BaseType) {x : StateM Walk Unit} (h : PointsWalk ts x) :
    PointsWalk ts (returning type x) := fun w =>
  h { w with returns := some type }

theorem points_parameters {ps : List Param}
    (h : ∀ p ∈ ps, Stands ts (IsNamed p.name) p.location) : PointsWalk ts (ps.forM parameter) := by
  induction ps with
  | nil => exact .pure _
  | cons p ps ih =>
    obtain ⟨hp, hps⟩ := List.forall_mem_cons.mp h
    have hparameter : PointsWalk ts (parameter p) :=
      (points_declareVariable hp p.type).bind fun _ => .pure _
    exact hparameter.bind fun _ => ih hps

theorem points_evaluate {e : Expr} (h : e.Anchored ts) : PointsWalk ts (evaluate e) :=
  (points_infer h).bind fun _ => .pure _

/-- What is refused as a condition has turned out to be of type `void`. -/
theorem points_condition (construct : Construct) {e : Expr} (h : e.Anchored ts) :
    PointsWalk ts (condition construct e) :=
  (points_infer h).bind fun _ =>
    .ite (fun _ => .pure _) fun hvoid => points_report (stands_name_of_not_condition h hvoid)

theorem points_clause {e : Expr} {visit : Expr → StateM Walk Unit} (h : e.AnchoredClause ts)
    (hvisit : e.Anchored ts → PointsWalk ts (visit e)) : PointsWalk ts (clause e visit) :=
  .ite (fun _ => .pure _) fun hgiven => hvisit (h.resolve_left hgiven)

theorem points_initializer (name : String) (type : BaseType) {init : Option Expr}
    (h : ∀ e ∈ init, e.Anchored ts) : PointsWalk ts (initializer name type init) := by
  cases init with
  | none => exact .pure _
  | some init =>
    have hinit := h init rfl
    exact (points_infer hinit).bind fun _ =>
      .ite (fun _ => .pure _) fun _ => points_report hinit.stands

theorem points_inferClause {e : Expr} (h : e.AnchoredClause ts) : PointsWalk ts (infer e) := by
  rcases h with homitted | hanchored
  · cases e with
    | omitted m =>
      intro w
      exact id
    | _ => cases homitted
  · exact points_infer hanchored

theorem points_ret {value : Expr} {p : Location} (hp : Stands ts (fun t => t.kind = .returnWord) p)
    (h : value.AnchoredClause ts) : PointsWalk ts (ret value p) := by
  refine (points_inferClause h).bind fun w => ?_
  generalize (infer value w).1 = found
  intro w hw
  obtain ⟨symbols, returns, findings⟩ := w
  cases returns with
  | none => exact hw
  | some expected =>
    have hreport : PointsWalk ts (unless Ty.accepts expected found do
        report (.returned expected found) p) :=
      .ite (fun _ => .pure _) fun _ => points_report hp
    exact hreport ⟨symbols, some expected, findings⟩ hw

mutual
theorem points_visit : (s : Stmt) → s.Anchored ts → PointsWalk ts (visit s)
  | .declareVar name type init p, h => by
    obtain ⟨hname, hinit⟩ := h
    simp only [visit]
    exact (points_declareVariable hname type).bind fun _ =>
      .ite (fun _ => points_initializer name type hinit) fun _ => .pure _
  | .declareFun name returns params body p, h => by
    obtain ⟨hname, hparams, hbody⟩ := h
    simp only [visit]
    exact (points_declareFunction hname _).bind fun _ => .ite
      (fun _ => points_returning returns (points_framed
        ((points_parameters hparams).bind fun _ => points_framed (points_visitAll body hbody))))
      fun _ => .pure _
  | .block body p, h => by
    simp only [visit]
    exact points_framed (points_visitAll body h)
  | .branch e thenBody none p, h => by
    simp only [visit]
    exact (points_condition _ h.1).bind fun _ => points_visit thenBody h.2
  | .branch e thenBody (some elseBody) p, h => by
    obtain ⟨he, hthen, helse⟩ := h
    simp only [visit]
    exact (points_condition _ he).bind fun _ =>
      (points_visit thenBody hthen).bind fun _ => points_visit elseBody helse
  | .whileLoop e body p, h => by
    simp only [visit]
    exact (points_condition _ h.1).bind fun _ => points_visit body h.2
  | .forLoop init e update body p, h => by
    obtain ⟨hinit, he, hupdate, hbody⟩ := h
    simp only [visit]
    exact (points_clause hinit points_evaluate).bind fun _ =>
      (points_clause he (points_condition _)).bind fun _ =>
        (points_clause hupdate points_evaluate).bind fun _ => points_visit body hbody
  | .ret value p, h => by
    simp only [visit]
    exact points_ret h.1 h.2
  | .print value p, h => by
    simp only [visit]
    exact points_evaluate h
  | .expr value p, h => by
    simp only [visit]
    exact (points_inferClause h).bind fun _ => .pure _

theorem points_visitAll : (body : List Stmt) → Stmt.AllAnchored ts body →
    PointsWalk ts (visitAll body)
  | [], _ => by
    simp only [visitAll]
    exact .pure _
  | s :: rest, h => by
    simp only [visitAll]
    exact (points_visit s h.1).bind fun _ => points_visitAll rest h.2
end

end Walk

namespace Program

/-- Every diagnostic of a program that was read stands where one of its tokens does, and that
token is what the diagnostic talks about. -/
theorem diagnostics_point {ts : List Token} {p : Program} (h : ofTokens ts = .ok p) :
    ∀ d ∈ (Analysis.ofProgram p).diagnostics,
      ∃ t ∈ ts, t.location = d.location ∧ d.fault.Concerns t := by
  intro d hd
  have hpoints := Walk.points_visitAll p (anchored_of_ofTokens h) Walk.start nofun
  exact hpoints d (List.mem_reverse.mp hd)

/-- In `void v; int x = 1 + v, v;` the sum and the last name are refused. -/
theorem diagnostics_point_sum :
    let token : Token.Kind → String → Nat → Token := fun k lexeme column =>
      ⟨k, lexeme, ⟨1, column⟩⟩
    let ts : List Token := [token .voidWord "void" 1, token .name "v" 6, token .semicolon ";" 7,
      token .intWord "int" 9, token .name "x" 13, token .equal "=" 15, token .number "1" 17,
      token .plus "+" 19, token .name "v" 21, token .comma "," 22, token .name "v" 24,
      token .semicolon ";" 25]
    let p : Program := [.declareVar "v" .void none ⟨1, 6⟩,
      .declareVar "x" .int (some (.binary .add (.number "1" ⟨0, ⟨1, 17⟩⟩) (.var "v" ⟨1, ⟨1, 21⟩⟩)
        ⟨2, ⟨1, 19⟩⟩)) ⟨1, 13⟩,
      .declareVar "v" .int none ⟨1, 24⟩]
    ofTokens ts = .ok p ∧
      (Analysis.ofProgram p).diagnostics =
        [⟨.operands .add .int .void, ⟨1, 19⟩⟩, ⟨.duplicateVariable "v", ⟨1, 24⟩⟩] ∧
      ∀ d ∈ (Analysis.ofProgram p).diagnostics,
        ∃ t ∈ ts, t.location = d.location ∧ d.fault.Concerns t := by
  intro token ts p
  have hp : ofTokens ts = .ok p := rfl
  exact ⟨hp, rfl, diagnostics_point hp⟩

end Program

end MiniCheck
