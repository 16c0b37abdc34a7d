import MiniCheck.Proofs.Typing.Framing
import MiniCheck.Proofs.Typing.Pointing
import MiniCheck.Proofs.Typing.ProgramTyping

/-!
# Diagnostics are right about what they say

A diagnostic that names types names such as do not go together, and never the unknown one. One
that is about a call can be checked against the functions that are known when the check is over:
none of them goes away or changes after a call was looked at. An expression whose type is unknown
has been reported.
-/

namespace MiniCheck

namespace BinaryOp

def isComparison : BinaryOp → Bool
  | eq | ne | lt | le | gt | ge => true
  | _ => false

theorem isComparison_of_not {op : BinaryOp} (hlogical : op.isLogical = false)
    (harithmetic : op.isArithmetic = false) : op.isComparison = true := by
  cases op with
  | eq | ne | lt | le | gt | ge => rfl
  | add | sub | mul | div | mod => cases harithmetic
  | and | or => cases hlogical

end BinaryOp

namespace Ty

theorem mem_of_not_isNumeric {t : Ty} (h : t.isNumeric = false) : t ∈ [void, bool] := by
  cases t with
  | void | bool => decide
  | int | float | unknown => cases h

theorem eq_void_of_not_isCondition {t : Ty} (h : t.isCondition = false) : t = void := by
  cases t with
  | void => rfl
  | int | float | bool | unknown => cases h

theorem ofBase_mem (type : BaseType) : ofBase type ∈ [int, float, void] := by
  cases type <;> decide

/-- The type `found` is known, and nothing of it can stand where a program asks for `expected`. -/
structure Misfits (expected found : Ty) : Prop where
  expected_mem : expected ∈ [int, float, void]
  found_ne : found ≠ unknown
  refused : expected.accepts found = false

theorem misfits_of_not_accepts {type : BaseType} {found : Ty}
    (h : ¬ Ty.accepts type found = true) : Misfits type found := by
  refine ⟨ofBase_mem type, ?_, eq_false_of_ne_true h⟩
  rintro rfl
  exact h (accepts_unknown _)

end Ty

namespace Fault

open Ty (Misfits)

/-- What the fault says is wrong is so, given the functions in `t`. -/
def JustifiedBy (t : SymbolTable) : Fault → Prop
  | duplicateVariable _ | undeclaredVariable _ | undeclaredFunction _ => True
  | duplicateFunction name => ∃ signature, t.signatureOf? name = some signature
  | initializer _ expected found | assignment _ expected found | returned expected found =>
    Misfits expected found
  | argument function position expected found =>
    Misfits expected found ∧ ∃ signature, t.signatureOf? function = some signature ∧
      1 ≤ position ∧ position ≤ signature.params.length ∧
        signature.params[position - 1]?.map Ty.ofBase = some expected
  | argumentCount function expected found =>
    expected ≠ found ∧
      ∃ signature, t.signatureOf? function = some signature ∧ signature.params.length = expected
  | operands op left right =>
    (op.isArithmetic = true ∨ op.isComparison = true) ∧
      (left ∈ [.void, .bool] ∨ right ∈ [.void, .bool])
  | negation found => found ∈ [.void, .bool]
  | condition _ found => found = .void

/-- More functions justify no less. -/
theorem JustifiedBy.mono {t u : SymbolTable} (h : Enlarged t.known u.known) {fault : Fault}
    (hfault : fault.JustifiedBy t) : fault.JustifiedBy u := by
  have hkeeps : ∀ {name signature}, t.signatureOf? name = some signature →
      u.signatureOf? name = some signature := h.lookup_eq_some
  cases fault with
  | duplicateFunction name =>
    obtain ⟨signature, hsignature⟩ := hfault
    exact ⟨signature, hkeeps hsignature⟩
  | argument function position expected found =>
    obtain ⟨hmisfits, signature, hsignature, hposition⟩ := hfault
    exact ⟨hmisfits, signature, hkeeps hsignature, hposition⟩
  | argumentCount function expected found =>
    obtain ⟨hne, signature, hsignature, hlength⟩ := hfault
    exact ⟨hne, signature, hkeeps hsignature, hlength⟩
  | _ => exact hfault

end Fault

namespace Typing

open Ty (misfits_of_not_accepts)

/-! ## Expressions -/

section Expressions

variable {t : SymbolTable}

abbrev JustifiesFindings {α : Type} (t : SymbolTable) (x : StateM Findings α) : Prop :=
  LogsOnly Findings.diagnostics (fun d => d.fault.JustifiedBy t) x

theorem justifies_report (fault : Fault) (h : fault.JustifiedBy t) (p : Location) :
    JustifiesFindings t (Findings.report fault p) := by
  intro f hf d hd
  rcases List.mem_cons.mp hd with rfl | hd
  · exact h
  · exact hf d hd

theorem justifies_record (m : Mark) (type : Ty) : JustifiesFindings t (Findings.record m type) :=
  .of_eq fun _ => rfl

theorem justifies_report_record (fault : Fault) (h : fault.JustifiedBy t) (m : Mark) (type : Ty) :
    JustifiesFindings t (do
      Findings.report fault m.location
      Findings.record m type) :=
  (justifies_report fault h m.location).bind fun _ => justifies_record m type

theorem justifies_operation (op : BinaryOp) (left right : Ty) (p : Location) :
    JustifiesFindings t (operation op left right p) := by
  unfold operation
  cases hlogical : op.isLogical with
  | true => exact .pure _
  | false =>
    cases hnumeric : left.isNumeric && right.isNumeric with
    | true => cases op.isArithmetic <;> exact .pure _
    | false =>
      have hoperands : left ∈ [.void, .bool] ∨ right ∈ [.void, .bool] :=
        (Bool.and_eq_false_iff.mp hnumeric).imp Ty.mem_of_not_isNumeric Ty.mem_of_not_isNumeric
      have hreport (hop : op.isArithmetic = true ∨ op.isComparison = true) :
          JustifiesFindings t (Findings.report (.operands op left right) p) :=
        justifies_report (.operands op left right) ⟨hop, hoperands⟩ p
      cases harithmetic : op.isArithmetic with
      | true => exact (hreport (.inl harithmetic)).bind fun _ => .pure _
      | false =>
        have hcomparison := BinaryOp.isComparison_of_not hlogical harithmetic
        exact (hreport (.inr hcomparison)).bind fun _ => .pure _

theorem justifies_prefixed (op : UnaryOp) (found : Ty) (p : Location) :
    JustifiesFindings t (prefixed op found p) := by
  cases op with
  | not => exact .pure _
  | neg =>
    refine .ite (fun _ => .pure _) fun hnumeric => ?_
    have hfault : (Fault.negation found).JustifiedBy t :=
      Ty.mem_of_not_isNumeric (eq_false_of_ne_true hnumeric)
    exact (justifies_report _ hfault p).bind fun _ => .pure _

mutual
theorem justifies_infer (t : SymbolTable) : (e : Expr) → JustifiesFindings t (infer t e)
  | .binary op left right m => by
    simp only [infer]
    exact (justifies_infer t left).bind fun _ => (justifies_infer t right).bind fun _ =>
      (justifies_operation op _ _ m.location).bind fun _ => justifies_record m _
  | .unary op operand m => by
    simp only [infer]
    exact (justifies_infer t operand).bind fun _ =>
      (justifies_prefixed op _ m.location).bind fun _ => justifies_record m _
  | .assign name value m => by
    simp only [infer]
    split
    · exact justifies_report_record (.undeclaredVariable name) trivial m _
    · rename_i target _
      exact (justifies_infer t value).bind fun f =>
        .ite (fun _ => justifies_record m _) fun hrefused =>
          justifies_report_record (.assignment name target (infer t value f).1)
            (misfits_of_not_accepts hrefused) m _
  | .var name m => by
    simp only [infer]
    split
    · exact justifies_report_record (.undeclaredVariable name) trivial m _
    · exact justifies_record m _
  | .number lexeme m => by
    simp only [infer]
    exact justifies_record m _
  | .omitted m => by
    simp only [infer]
    exact justifies_record m _
  | .call name args m => by
    simp only [infer]
    split
    · exact justifies_report_record (.undeclaredFunction name) trivial m _
    · rename_i signature hsignature
      refine .ite (fun _ => ?_) fun hlength => ?_
      · exact (justifies_inferArguments t hsignature args [] signature.params rfl).bind fun _ =>
          justifies_record m _
      · exact justifies_report_record (.argumentCount name signature.params.length args.length)
          ⟨fun heq => hlength heq.symm, signature, hsignature, rfl⟩ m _

/-- The arguments that are left stand for the parameters behind those in `front`. -/
theorem justifies_inferArguments (t : SymbolTable) {function : String} {signature : Signature}
    (h : t.signatureOf? function = some signature) :
    (args : List Expr) → (front params : List BaseType) → signature.params = front ++ params →
      JustifiesFindings t (inferArguments t function (front.length + 1) args params)
  | arg :: args, front, param :: params, hparams => by
    have hrest := justifies_inferArguments t h args (front ++ [param]) params
      (by rw [hparams, List.append_assoc, List.singleton_append])
    rw [List.length_append, List.length_singleton] at hrest
    simp only [inferArguments]
    refine (justifies_infer t arg).bind fun f => .ite (fun _ => hrest) fun hrefused => ?_
    have hlength : front.length + 1 ≤ signature.params.length := by
      rw [hparams, List.length_append, List.length_cons]
      omega
    have hparam : signature.params[front.length + 1 - 1]?.map Ty.ofBase =
        some (Ty.ofBase param) := by
      rw [hparams, Nat.add_sub_cancel, List.getElem?_append_right (Nat.le_refl _), Nat.sub_self]
      rfl
    have hposition : 1 ≤ front.length + 1 := Nat.le_add_left 1 front.length
    have hreport := justifies_report (.argument function (front.length + 1) param (infer t arg f).1)
      ⟨misfits_of_not_accepts hrefused, signature, h, hposition, hlength, hparam⟩ arg.location
    exact hreport.bind fun _ => hrest
  | [], _, _, _ => by
    unfold inferArguments
    exact .pure _
  | _ :: _, _, [], _ => by
    unfold inferArguments
    exact .pure _
end

/-- Whatever is typed in silence has a type by the rules, and the rules have no unknown type. -/
theorem not_silent_of_unknown {e : Expr} {f : Findings} (h : (infer t e f).1 = .unknown) :
    ¬ Silent Findings.diagnostics (infer t e) f := by
  intro hsilent
  obtain ⟨type, ns, htype⟩ := hasType_of_silent e f hsilent
  rw [infer_of_hasType e htype] at h
  exact ValueTy.toTy_ne_unknown type h

theorem exists_report_of_unknown {e : Expr} {f : Findings} (h : (infer t e f).1 = .unknown) :
    ∃ new, new ≠ [] ∧ (infer t e f).2.diagnostics = new ++ f.diagnostics := by
  obtain ⟨new, hnew⟩ := logs_infer t e f
  refine ⟨new, ?_, hnew.symm⟩
  rintro rfl
  exact not_silent_of_unknown h hnew.symm

end Expressions

end Typing

/-! ## Statements -/

namespace Walk

open Typing
open Ty (misfits_of_not_accepts)

variable {α β : Type}

/-- All that has been reported is justified by the functions known so far. -/
def Justified (w : Walk) : Prop := ∀ d ∈ w.diagnostics, d.fault.JustifiedBy w.symbols

/-- A step behind which all reports are justified if they were so before. -/
def StaysJustified (x : StateM Walk α) : Prop := ∀ w, w.Justified → (x w).2.Justified

namespace StaysJustified

theorem pure (a : α) : StaysJustified (Pure.pure a : StateM Walk α) := fun _ hw => hw

theorem bind {x : StateM Walk α} {g : α → StateM Walk β} (hx : StaysJustified x)
    (hg : ∀ a, StaysJustified (g a)) : StaysJustified (x >>= g) :=
  fun w hw => hg (x w).1 _ (hx w hw)

theorem ite {c : Prop} [Decidable c] {x y : StateM Walk α} (hx : c → StaysJustified x)
    (hy : ¬ c → StaysJustified y) : StaysJustified (if c then x else y) := by
  split
  · exact hx ‹_›
  · exact hy ‹_›

end StaysJustified

/-- New functions change nothing about the reports that are there. -/
theorem Justified.mono {w : Walk} (h : w.Justified) {t : SymbolTable}
    (ht : Enlarged w.symbols.known t.known) : Justified { w with symbols := t } :=
  fun d hd => (h d hd).mono ht

theorem Justified.report {w : Walk} (h : w.Justified) (fault : Fault)
    (hfault : fault.JustifiedBy w.symbols) (p : Location) : (report fault p w).2.Justified :=
  justifies_report fault hfault p w.findings h

theorem staysJustified_report (fault : Fault) (h : ∀ t, fault.JustifiedBy t) (p : Location) :
    StaysJustified (report fault p) := fun w hw =>
  hw.report fault (h w.symbols) p

theorem staysJustified_infer (e : Expr) : StaysJustified (infer e) := fun w hw =>
  justifies_infer w.symbols e w.findings hw

section Declarations

variable {d : SymbolTable → Except Diagnostic SymbolTable}

theorem staysJustified_declare (hok : ∀ {t u}, d t = .ok u → Enlarged t.known u.known)
    (herror : ∀ {t fault}, d t = .error fault → fault.fault.JustifiedBy t) :
    StaysJustified (declare d) := by
  intro w hw
  cases hd : d w.symbols with
  | ok t =>
    rw [declare_of_ok hd]
    exact hw.mono (hok hd)
  | error fault =>
    rw [declare_of_error hd]
    exact hw.report fault.fault (herror hd) fault.location

theorem staysJustified_declareVariable (name : String) (type : BaseType) (p : Location) :
    StaysJustified (declare fun t => t.declareVariable name type p) := by
  refine staysJustified_declare (fun {t u} hu => ?_) (fun {t fault} hfault => ?_)
  · unfold SymbolTable.declareVariable at hu
    split at hu
    · cases hu
    · cases hu
      rw [t.known_bind]
      exact .refl
  · unfold SymbolTable.declareVariable at hfault
    split at hfault
    · cases hfault
      trivial
    · cases hfault

theorem staysJustified_declareFunction (name : String) (signature : Signature) (p : Location) :
    StaysJustified (declare fun t => t.declareFunction name signature p) := by
  refine staysJustified_declare (fun {t u} hu => ?_) (fun {t fault} hfault => ?_)
  · unfold SymbolTable.declareFunction at hu
    split at hu
    · cases hu
    · rename_i hname
      cases hu
      exact .cons .refl (Option.not_isSome_iff_eq_none.mp hname) signature
  · unfold SymbolTable.declareFunction at hfault
    split at hfault
    · rename_i hname
      cases hfault
      exact Option.isSome_iff_exists.mp hname
    · cases hfault

end Declarations

theorem staysJustified_framed {x : StateM Walk Unit} (h : StaysJustified x) :
    StaysJustified (framed x) := by
  intro w hw
  have hpush : Justified { w with symbols := w.symbols.push } := hw.mono .refl
  exact (h _ hpush).mono .refl

theorem staysJustified_returning (type : BaseType) {x : StateM Walk Unit} (h : StaysJustified x) :
    StaysJustified (returning type x) := fun w hw =>
  h { w with returns := some type } hw

theorem staysJustified_parameters (ps : List Param) : StaysJustified (ps.forM parameter) := by
  induction ps with
  | nil => exact .pure _
  | cons p ps ih =>
    have hparameter : StaysJustified (parameter p) :=
      (staysJustified_declareVariable p.name p.type p.location).bind fun _ => .pure _
    exact hparameter.bind fun _ => ih

theorem staysJustified_evaluate (e : Expr) : StaysJustified (evaluate e) :=
  (staysJustified_infer e).bind fun _ => .pure _

theorem staysJustified_condition (construct : Construct) (e : Expr) :
    StaysJustified (condition construct e) :=
  (staysJustified_infer e).bind fun found => .ite (fun _ => .pure _) fun hrefused =>
    staysJustified_report (.condition construct found)
      (fun _ => Ty.eq_void_of_not_isCondition (eq_false_of_ne_true hrefused)) _

theorem staysJustified_clause (e : Expr) {visit : Expr → StateM Walk Unit}
    (h : StaysJustified (visit e)) : StaysJustified (clause e visit) :=
  .ite (fun _ => .pure _) fun _ => h

theorem staysJustified_initializer (name : String) (type : BaseType) :
    (init : Option Expr) → StaysJustified (initializer name type init)
  | none => .pure _
  | some init =>
    (staysJustified_infer init).bind fun found => .ite (fun _ => .pure _) fun hrefused =>
      staysJustified_report (.initializer name type found)
        (fun _ => misfits_of_not_accepts hrefused) _

theorem staysJustified_ret (value : Expr) (p : Location) : StaysJustified (ret value p) := by
  refine (staysJustified_infer value).bind fun found => ?_
  intro w hw
  obtain ⟨symbols, returns, findings⟩ := w
  cases returns with
  | none => exact hw
  | some expected =>
    have hreport : StaysJustified (unless Ty.accepts expected found do
        report (.returned expected found) p) :=
      .ite (fun _ => .pure _) fun hrefused =>
        staysJustified_report (.returned expected found)
          (fun _ => misfits_of_not_accepts hrefused) p
    exact hreport ⟨symbols, some expected, findings⟩ hw

mutual
theorem staysJustified_visit : (s : Stmt) → StaysJustified (visit s)
  | .declareVar name type init p => by
    simp only [visit]
    exact (staysJustified_declareVariable name type p).bind fun _ =>
      .ite (fun _ => staysJustified_initializer name type init) fun _ => .pure _
  | .declareFun name returns params body p => by
    simp only [visit]
    exact (staysJustified_declareFunction name _ p).bind fun _ => .ite
      (fun _ => staysJustified_returning returns (staysJustified_framed
        ((staysJustified_parameters params).bind fun _ =>
          staysJustified_framed (staysJustified_visitAll body))))
      fun _ => .pure _
  | .block body p => by
    simp only [visit]
    exact staysJustified_framed (staysJustified_visitAll body)
  | .branch e thenBody none p => by
    simp only [visit]
    exact (staysJustified_condition _ e).bind fun _ => staysJustified_visit thenBody
  | .branch e thenBody (some elseBody) p => by
    simp only [visit]
    exact (staysJustified_condition _ e).bind fun _ =>
      (staysJustified_visit thenBody).bind fun _ => staysJustified_visit elseBody
  | .whileLoop e body p => by
    simp only [visit]
    exact (staysJustified_condition _ e).bind fun _ => staysJustified_visit body
  | .forLoop init e update body p => by
    simp only [visit]
    exact (staysJustified_clause init (staysJustified_evaluate init)).bind fun _ =>
      (staysJustified_clause e (staysJustified_condition _ e)).bind fun _ =>
        (staysJustified_clause update (staysJustified_evaluate update)).bind fun _ =>
          staysJustified_visit body
  | .ret value p => by
    simp only [visit]
    exact staysJustified_ret value p
  | .print value p | .expr value p => by
    simp only [visit]
    exact staysJustified_evaluate value

theorem staysJustified_visitAll : (body : List Stmt) → StaysJustified (visitAll body)
  | [] => by
    simp only [visitAll]
    exact .pure _
  | s :: rest => by
    simp only [visitAll]
    exact (staysJustified_visit s).bind fun _ => staysJustified_visitAll rest
end

end Walk

namespace Analysis

/-- Whatever a check of a program reports is so by the types that the report names and by the
functions that the check ends with. Wherever an expression is met, its type comes out as unknown
only if something is reported about it. -/
theorem diagnostics_justified :
    (∀ (p : Program), ∀ d ∈ (ofProgram p).diagnostics,
        d.fault.JustifiedBy (ofProgram p).symbols) ∧
      ∀ (e : Expr) (w : Walk), (Walk.infer e w).1 = .unknown →
        ∃ new, new ≠ [] ∧ (Walk.infer e w).2.diagnostics = new ++ w.diagnostics := by
  constructor
  · intro p d hd
    exact Walk.staysJustified_visitAll p Walk.start nofun d (List.mem_reverse.mp hd)
  · intro e w h
    exact Typing.exists_report_of_unknown h

/-- In `void f(int a, float b) \x7b\x7d int x = f(1.5, 2); f();` the first argument, the value
and the number of arguments do not fit. Where nothing is declared, `x` is of an unknown type. -/
theorem diagnostics_justified_call :
    let m : Nat → Mark := fun id => ⟨id, .first⟩
    let p : Program := [
      .declareFun "f" .void [⟨"a", .int, .first⟩, ⟨"b", .float, .first⟩] [] .first,
      .declareVar "x" .int (some (.call "f" [.number "1.5" (m 0), .number "2" (m 1)] (m 2))) .first,
      .expr (.call "f" [] (m 3)) .first]
    (ofProgram p).diagnostics = [⟨.argument "f" 1 .int .float, .first⟩,
        ⟨.initializer "x" .int .void, .first⟩, ⟨.argumentCount "f" 2 0, .first⟩] ∧
      (∀ d ∈ (ofProgram p).diagnostics, d.fault.JustifiedBy (ofProgram p).symbols) ∧
      (Walk.infer (.var "x" (m 0)) Walk.start).1 = .unknown ∧
      ∃ new, new ≠ [] ∧ (Walk.infer (.var "x" (m 0)) Walk.start).2.diagnostics =
        new ++ Walk.start.diagnostics := by
  intro m p
  exact ⟨by decide, diagnostics_justified.1 p, rfl, diagnostics_justified.2 _ Walk.start rfl⟩

end Analysis
end MiniCheck
