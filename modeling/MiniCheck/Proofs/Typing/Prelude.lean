import MiniCheck.Proofs.Tree.Names
import MiniCheck.Proofs.Typing.Outlines
import MiniCheck.Proofs.Typing.Symbols

/-!
# Expressions with more declared

A prelude declares variables and functions in front of everything else. A use of a name that
only the prelude has was a fault before, of an unknown type, and has a type of numbers now.
Everything around it is checked as before, against a type that is above the one it had.
-/

namespace MiniCheck

/-- The fault that a use of the name is when it is not declared. -/
def Symbol.missing : Symbol → Fault
  | ofVariable name => .undeclaredVariable name
  | ofFunction name => .undeclaredFunction name

/-- Global variables and functions that are declared before a program begins. -/
structure Prelude where
  globals : Frame
  functions : List (String × Signature)

namespace Prelude

variable (b : Prelude)

def has : Symbol → Bool
  | .ofVariable name => (b.globals.lookup name).isSome
  | .ofFunction name => (b.functions.lookup name).isSome

/-- The faults that the declarations in front put right. -/
def settles : Fault → Bool
  | .undeclaredVariable name => b.has (.ofVariable name)
  | .undeclaredFunction name => b.has (.ofFunction name)
  | _ => false

/-- What is declared has values that fit somewhere. -/
structure Valued : Prop where
  globals : ∀ {name type}, b.globals.lookup name = some type → type ≠ .void
  functions : ∀ {name signature}, b.functions.lookup name = some signature →
    signature.returns ≠ .void

/-- The table `t` with the prelude below everything in it. -/
def under (t : SymbolTable) : SymbolTable :=
  ⟨t.inner, t.outermost ++ b.globals, t.known ++ b.functions⟩

def ofVariable (name : String) (type : BaseType) : Prelude := ⟨[(name, type)], []⟩

def ofFunction (name : String) (signature : Signature) : Prelude := ⟨[], [(name, signature)]⟩

variable {b} {name : String}

theorem lookup_singleton {α : Type} (name other : String) (a : α) :
    [(name, a)].lookup other = if other = name then some a else none := by
  by_cases h : other = name
  · rw [if_pos h, h, List.lookup_cons_self]
  · rw [if_neg h, List.lookup_cons, beq_false_of_ne h, List.lookup_nil]

theorem has_ofVariable (name : String) (type : BaseType) (n : Symbol) :
    (ofVariable name type).has n = decide (n = .ofVariable name) := by
  cases n with
  | ofVariable other =>
    simp only [has, ofVariable, lookup_singleton, Symbol.ofVariable.injEq]
    split <;> simp_all
  | ofFunction other => rfl

theorem has_ofFunction (name : String) (signature : Signature) (n : Symbol) :
    (ofFunction name signature).has n = decide (n = .ofFunction name) := by
  cases n with
  | ofVariable other => rfl
  | ofFunction other =>
    simp only [has, ofFunction, lookup_singleton, Symbol.ofFunction.injEq]
    split <;> simp_all

theorem valued_ofVariable (name : String) {type : BaseType} (h : type ≠ .void) :
    (ofVariable name type).Valued where
  globals := by
    intro other found hfound
    simp only [ofVariable, lookup_singleton, Option.ite_none_right_eq_some,
      Option.some.injEq] at hfound
    rw [← hfound.2]
    exact h
  functions := by
    intro other found hfound
    cases hfound

theorem valued_ofFunction (name : String) {signature : Signature} (h : signature.returns ≠ .void) :
    (ofFunction name signature).Valued where
  globals := by
    intro other found hfound
    cases hfound
  functions := by
    intro other found hfound
    simp only [ofFunction, lookup_singleton, Option.ite_none_right_eq_some,
      Option.some.injEq] at hfound
    rw [← hfound.2]
    exact h

/-- A single declaration puts one fault right. -/
theorem settles_eq {n : Symbol} (h : ∀ n', b.has n' = decide (n' = n)) (fault : Fault) :
    b.settles fault = decide (fault = n.missing) := by
  cases n with
  | ofVariable name => cases fault <;> simp [settles, h, Symbol.missing]
  | ofFunction name => cases fault <;> simp [settles, h, Symbol.missing]

theorem has_variable {type : BaseType} (h : b.globals.lookup name = some type) :
    b.has (.ofVariable name) = true := by
  simp only [has, h, Option.isSome_some]

theorem has_function {signature : Signature} (h : b.functions.lookup name = some signature) :
    b.has (.ofFunction name) = true := by
  simp only [has, h, Option.isSome_some]

theorem typeOf?_under (b : Prelude) (t : SymbolTable) (name : String) :
    (b.under t).typeOf? name = (t.typeOf? name).or (b.globals.lookup name) := by
  unfold SymbolTable.typeOf? SymbolTable.frames under
  simp only [List.findSome?_append, List.findSome?_singleton, List.lookup_append, Option.or_assoc]

theorem signatureOf?_under (b : Prelude) (t : SymbolTable) (name : String) :
    (b.under t).signatureOf? name = (t.signatureOf? name).or (b.functions.lookup name) :=
  List.lookup_append

theorem bind_under (b : Prelude) (t : SymbolTable) (name : String) (type : BaseType) :
    (b.under t).bind name type = b.under (t.bind name type) := by
  obtain ⟨inner, outermost, known⟩ := t
  cases inner with
  | nil => rfl
  | cons frame inner => rfl

theorem declareVariable_under (h : b.has (.ofVariable name) = false) (type : BaseType)
    (p : Location) (t : SymbolTable) :
    (b.under t).declareVariable name type p = (t.declareVariable name type p).map b.under := by
  have hnone : b.globals.lookup name = none :=
    Option.isNone_iff_eq_none.mp (Option.isSome_eq_false_iff.mp h)
  have hlookup : (b.under t).innermost.lookup name = t.innermost.lookup name := by
    obtain ⟨inner, outermost, known⟩ := t
    cases inner with
    | nil =>
      change (outermost ++ b.globals).lookup name = outermost.lookup name
      rw [List.lookup_append, hnone, Option.or_none]
    | cons frame inner => rfl
  unfold SymbolTable.declareVariable
  rw [hlookup, bind_under]
  split <;> rfl

theorem declareFunction_under (h : b.has (.ofFunction name) = false) (signature : Signature)
    (p : Location) (t : SymbolTable) :
    (b.under t).declareFunction name signature p =
      (t.declareFunction name signature p).map b.under := by
  have hnone : b.functions.lookup name = none :=
    Option.isNone_iff_eq_none.mp (Option.isSome_eq_false_iff.mp h)
  have hlookup : (b.under t).known.lookup name = t.known.lookup name := by
    change (t.known ++ b.functions).lookup name = t.known.lookup name
    rw [List.lookup_append, hnone, Option.or_none]
  unfold SymbolTable.declareFunction
  rw [hlookup]
  split <;> rfl

end Prelude

namespace Typing

open Ty (Below)

/-! ## Expressions -/

/-- The findings of two checks, the second of which reports all that is left to report. -/
def FindingsRemain (b : Prelude) (f f' : Findings) : Prop :=
  Remain b.settles f.diagnostics f'.diagnostics

/-- What becomes of an expression that needs a name which is not declared. -/
def missed (n : Symbol) (m : Mark) : StateM Findings Ty := do
  Findings.report n.missing m.location
  Findings.record m .unknown

section Answers

variable {t : SymbolTable} {name : String} {m : Mark} {f : Findings}

theorem infer_var_fst {type : BaseType} (h : t.typeOf? name = some type) :
    (infer t (.var name m) f).1 = type := by
  simp only [infer, h]
  rfl

theorem infer_assign_fst {type : BaseType} (h : t.typeOf? name = some type) (value : Expr) :
    (infer t (.assign name value m) f).1 = type := by
  simp only [infer, h]
  rw [bind_run]
  split <;> rfl

theorem infer_call_fst {signature : Signature} (h : t.signatureOf? name = some signature)
    (args : List Expr) : (infer t (.call name args m) f).1 = signature.returns := by
  simp only [infer, h]
  split <;> rfl

theorem infer_var_of_none (h : t.typeOf? name = none) (m : Mark) :
    infer t (.var name m) = missed (.ofVariable name) m := by
  simp only [infer, h]
  rfl

theorem infer_assign_of_none (h : t.typeOf? name = none) (value : Expr) (m : Mark) :
    infer t (.assign name value m) = missed (.ofVariable name) m := by
  simp only [infer, h]
  rfl

theorem infer_call_of_none (h : t.signatureOf? name = none) (args : List Expr) (m : Mark) :
    infer t (.call name args m) = missed (.ofFunction name) m := by
  simp only [infer, h]
  rfl

end Answers

section Expressions

variable {b : Prelude}

abbrev RelatesFindings {α : Type} (b : Prelude) (A : α → α → Prop) (x y : StateM Findings α) :
    Prop :=
  Relates (FindingsRemain b) A x y

theorem relates_report {fault fault' : Fault} (h : fault.kind = fault'.kind) (p : Location) :
    RelatesFindings b Eq (Findings.report fault p) (Findings.report fault' p) :=
  fun _ _ hf => ⟨rfl, hf.cons_cons (congrArg (fun k => (k, p)) h)⟩

theorem relates_record (m : Mark) {t t' : Ty} (h : Below t t') :
    RelatesFindings b Below (Findings.record m t) (Findings.record m t') :=
  fun _ _ hf => ⟨h, hf⟩

/-- A name that the first check misses is missing for the second one too, or has got a type. -/
theorem relates_missed {y : StateM Findings Ty} (n : Symbol) (m : Mark)
    (hy : y = missed n m ∨ b.has n = true ∧ LogsFindings y ∧
      ∃ type : BaseType, type ≠ .void ∧ ∀ f, (y f).1 = type) :
    RelatesFindings b Below (missed n m) y := by
  rcases hy with rfl | ⟨hn, hlogs, type, htype, hanswer⟩
  · exact (relates_report rfl _).bind fun _ _ _ => relates_record m (.refl _)
  · intro f f' hf
    have hsettles : b.settles n.missing = true := by
      cases n <;> exact hn
    rw [hanswer]
    exact ⟨.of_ne_void htype, Remain.of_suffix (Remain.settle hf hsettles) (hlogs f')⟩

/-- What does not fit goes on not to fit. -/
theorem relates_unless {α : Type} {A : α → α → Prop} {found found' : Ty} {x y : StateM Findings α}
    (target : Ty) (fault : Ty → Fault) (hkind : ∀ s s', (fault s).kind = (fault s').kind)
    (p : Location) (hfound : Below found found') (hx : RelatesFindings b A x y) :
    RelatesFindings b A
      (if target.accepts found = true then x else do Findings.report (fault found) p; x)
      (if target.accepts found' = true then y else do Findings.report (fault found') p; y) := by
  -- Where only the second type does not fit, the second check has a report more.
  refine .ite_of_imp hfound.accepts hx ((relates_report (hkind _ _) p).bind fun _ _ _ => hx) ?_
  intro f f' hf
  exact hx _ _ (Remain.of_suffix hf (List.suffix_cons _ _))

theorem relates_operation (op : BinaryOp) {l l' r r' : Ty} (hl : Below l l') (hr : Below r r')
    (p : Location) : RelatesFindings b Below (operation op l r p) (operation op l' r' p) := by
  have hreport : RelatesFindings b Eq (Findings.report (.operands op l r) p)
      (Findings.report (.operands op l' r') p) := relates_report rfl p
  unfold operation
  rw [hl.isNumeric_eq, hr.isNumeric_eq]
  cases op.isLogical with
  | true => exact .pure (.refl _)
  | false =>
    cases l'.isNumeric && r'.isNumeric with
    | true =>
      cases op.isArithmetic with
      | true => exact .pure (hl.arithmetic hr)
      | false => exact .pure (.refl _)
    | false =>
      cases op.isArithmetic with
      | true => exact hreport.bind fun _ _ _ => .pure (.refl _)
      | false => exact hreport.bind fun _ _ _ => .pure (.refl _)

theorem relates_prefixed (op : UnaryOp) {found found' : Ty} (h : Below found found')
    (p : Location) : RelatesFindings b Below (prefixed op found p) (prefixed op found' p) := by
  cases op with
  | not => exact .pure (.refl _)
  | neg =>
    unfold prefixed
    rw [h.isNumeric_eq]
    exact .ite (.pure h) ((relates_report rfl p).bind fun _ _ _ => .pure (.refl _))

/-- The second check types the same expression in the table with the prelude below. -/
theorem relates_missed_variable (hb : b.Valued) {t : SymbolTable} {name : String}
    (h : t.typeOf? name = none) (m : Mark) {e : Expr}
    (hmissed : (b.under t).typeOf? name = none →
      infer (b.under t) e = missed (.ofVariable name) m)
    (hanswer : ∀ {type : BaseType}, (b.under t).typeOf? name = some type →
      ∀ f, (infer (b.under t) e f).1 = type) :
    RelatesFindings b Below (missed (.ofVariable name) m) (infer (b.under t) e) := by
  have htypeOf := Prelude.typeOf?_under b t name
  rw [h, Option.none_or] at htypeOf
  apply relates_missed
  cases hvariable : b.globals.lookup name with
  | none => exact .inl (hmissed (htypeOf.trans hvariable))
  | some type =>
    exact .inr ⟨Prelude.has_variable hvariable, logs_infer _ _, type, hb.globals hvariable,
      hanswer (htypeOf.trans hvariable)⟩

mutual
theorem relates_infer (hb : b.Valued) (t : SymbolTable) :
    (e : Expr) → RelatesFindings b Below (infer t e) (infer (b.under t) e)
  | .binary op left right m => by
    simp only [infer]
    exact (relates_infer hb t left).bind fun l l' hl =>
      (relates_infer hb t right).bind fun r r' hr =>
        (relates_operation op hl hr m.location).bind fun _ _ h => relates_record m h
  | .unary op operand m => by
    simp only [infer]
    exact (relates_infer hb t operand).bind fun _ _ hfound =>
      (relates_prefixed op hfound m.location).bind fun _ _ h => relates_record m h
  | .assign name value m => by
    cases htarget : t.typeOf? name with
    | some target =>
      have htypeOf := Prelude.typeOf?_under b t name
      rw [htarget, Option.some_or] at htypeOf
      simp only [infer, htarget, htypeOf]
      exact (relates_infer hb t value).bind fun _ _ hfound =>
        relates_unless target (.assignment name target) (fun _ _ => rfl) _ hfound
          (relates_record m (.refl _))
    | none =>
      rw [infer_assign_of_none htarget]
      exact relates_missed_variable hb htarget m (fun h => infer_assign_of_none h value m)
        fun h _ => infer_assign_fst h value
  | .var name m => by
    cases htarget : t.typeOf? name with
    | some target =>
      have htypeOf := Prelude.typeOf?_under b t name
      rw [htarget, Option.some_or] at htypeOf
      simp only [infer, htarget, htypeOf]
      exact relates_record m (.refl _)
    | none =>
      rw [infer_var_of_none htarget]
      exact relates_missed_variable hb htarget m (fun h => infer_var_of_none h m)
        fun h _ => infer_var_fst h
  | .number lexeme m => by
    simp only [infer]
    exact relates_record m (.refl _)
  | .omitted m => by
    simp only [infer]
    exact relates_record m (.refl _)
  | .call name args m => by
    have hsignature := Prelude.signatureOf?_under b t name
    cases htarget : t.signatureOf? name with
    | some target =>
      rw [htarget, Option.some_or] at hsignature
      simp only [infer, htarget, hsignature]
      exact .ite ((relates_inferArguments hb t name 1 args target.params).bind fun _ _ _ =>
        relates_record m (.refl _))
        ((relates_report rfl _).bind fun _ _ _ => relates_record m (.refl _))
    | none =>
      rw [htarget, Option.none_or] at hsignature
      rw [infer_call_of_none htarget]
      apply relates_missed
      cases hfunction : b.functions.lookup name with
      | none => exact .inl (infer_call_of_none (hsignature.trans hfunction) args m)
      | some signature =>
        exact .inr ⟨Prelude.has_function hfunction, logs_infer _ _, signature.returns,
          hb.functions hfunction, fun _ => infer_call_fst (hsignature.trans hfunction) args⟩

theorem relates_inferArguments (hb : b.Valued) (t : SymbolTable) (function : String)
    (position : Nat) : (args : List Expr) → (params : List BaseType) →
      RelatesFindings b Eq (inferArguments t function position args params)
        (inferArguments (b.under t) function position args params)
  | arg :: args, param :: params => by
    simp only [inferArguments]
    have hrest := relates_inferArguments hb t function (position + 1) args params
    exact (relates_infer hb t arg).bind fun _ _ hfound =>
      relates_unless param (.argument function position param) (fun _ _ => rfl) _ hfound hrest
  | [], _ => by
    unfold inferArguments
    exact .pure rfl
  | _ :: _, [] => by
    unfold inferArguments
    exact .pure rfl
end

end Expressions

end Typing

end MiniCheck
