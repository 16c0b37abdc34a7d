import MiniCheck.Proofs.Typing.Rules
import MiniCheck.Proofs.Typing.Silence

/-!
# Expressions are typed by the rules

Typing an expression reports nothing exactly if the rules give it a type. It answers with
that type, and records for each expression inside it the type that the rules give.
-/

namespace MiniCheck

namespace SymbolTable

open Typing (Scope)

/-- What a symbol table declares. -/
def scope (t : SymbolTable) : Scope :=
  ⟨t.frames.map fun frame name => frame.lookup name, t.signatureOf?⟩

variable (t : SymbolTable)

theorem scope_empty : SymbolTable.empty.scope = Scope.start := rfl

theorem scope_push : t.push.scope = t.scope.push := rfl

theorem lookup_cons_eq {β : Type} (name : String) (x : β) (entries : List (String × β)) :
    (fun other => ((name, x) :: entries).lookup other) =
      fun other => if other = name then some x else entries.lookup other := by
  funext other
  by_cases h : other = name
  · simp [h]
  · have hb : (other == name) = false := beq_eq_false_iff_ne.mpr h
    simp [List.lookup_cons, hb, h]

theorem scope_bind (name : String) (type : BaseType) :
    (t.bind name type).scope = t.scope.bind name type := by
  obtain ⟨inner, outermost, known⟩ := t
  cases inner with
  | nil =>
    have hframe := lookup_cons_eq name type outermost
    simp only [scope, bind, Scope.bind, frames, List.nil_append, List.map_cons, List.map_nil, hframe]
    rfl
  | cons frame inner =>
    have hframe := lookup_cons_eq name type frame
    simp only [scope, bind, Scope.bind, frames, List.cons_append, List.map_cons, hframe]
    rfl

theorem scope_fresh_iff (name : String) :
    t.scope.Fresh name ↔ t.innermost.lookup name = none := by
  obtain ⟨inner, outermost, known⟩ := t
  cases inner <;> simp [Scope.Fresh, scope, frames, innermost]

theorem scope_hasVariable_iff (name : String) (type : BaseType) :
    t.scope.HasVariable name type ↔ t.typeOf? name = some type := by
  unfold Scope.HasVariable scope typeOf?
  generalize t.frames = frames
  induction frames with
  | nil =>
    constructor
    · intro h
      cases h
    · intro h
      cases h
  | cons frame frames ih =>
    rw [List.map_cons, List.findSome?_cons]
    constructor
    · intro h
      cases h with
      | here h =>
        have hframe : frame.lookup name = some type := h
        rw [hframe]
      | outer h hrest =>
        have hframe : frame.lookup name = none := h
        rw [hframe]
        exact ih.mp hrest
    · intro h
      cases hframe : frame.lookup name with
      | some found =>
        rw [hframe] at h
        exact .here (hframe.trans h)
      | none =>
        rw [hframe] at h
        exact .outer hframe (ih.mpr h)

end SymbolTable

namespace Findings

open Typing (Types)

/-- The findings once some expressions have got their types and nothing was reported. -/
def after (f : Findings) (types : Types) : Findings :=
  ⟨f.diagnostics, (types.map fun n => (n.1, n.2.toTy)).reverse ++ f.types⟩

@[simp] theorem after_after (f : Findings) (ns ns' : Types) :
    (f.after ns).after ns' = f.after (ns ++ ns') := by
  simp [after]

theorem record_run (m : Mark) (t : Typing.ValueTy) (f : Findings) :
    record m t.toTy f = (t.toTy, f.after [(m.id, t)]) := rfl

end Findings

namespace Typing

open ValueTy Findings

namespace ValueTy

theorem toTy_ofBase (b : BaseType) : (ofBase b).toTy = Ty.ofBase b := by
  cases b <;> rfl

theorem numeric_iff {t : ValueTy} : t.Numeric ↔ t.toTy.isNumeric = true := by
  constructor
  · rintro (_ | _) <;> rfl
  · intro h
    cases t with
    | int => exact .int
    | float => exact .float
    | void => cases h
    | bool => cases h

theorem fits_iff {target : BaseType} {t : ValueTy} :
    Fits target t ↔ (Ty.ofBase target).accepts t.toTy = true := by
  constructor
  · rintro (_ | rfl)
    · rw [toTy_ofBase]
      exact Ty.accepts_self _
    · rfl
  · intro h
    cases target <;> cases t <;> first
      | exact .same
      | exact .widened rfl
      | exact absurd h (by decide)

theorem tests_iff {t : ValueTy} : t.Tests ↔ t.toTy.isCondition = true := by
  cases t <;> simp [Tests, toTy, Ty.isCondition]

end ValueTy

section Operations

variable {op : BinaryOp} {l r t : ValueTy} {p : Location} {f : Findings}

theorem operation_run (h : Operates op l r t) : operation op l.toTy r.toTy p f = (t.toTy, f) := by
  cases h with
  | integers hop =>
    simp only [List.mem_cons, List.not_mem_nil, or_false] at hop
    rcases hop with rfl | rfl | rfl | rfl | rfl <;> rfl
  | floatLeft hop hr =>
    simp only [List.mem_cons, List.not_mem_nil, or_false] at hop
    rcases hop with rfl | rfl | rfl | rfl | rfl <;> cases hr <;> rfl
  | floatRight hop hl =>
    simp only [List.mem_cons, List.not_mem_nil, or_false] at hop
    rcases hop with rfl | rfl | rfl | rfl | rfl <;> cases hl <;> rfl
  | comparison hop hl hr =>
    simp only [List.mem_cons, List.not_mem_nil, or_false] at hop
    rcases hop with rfl | rfl | rfl | rfl | rfl | rfl <;> cases hl <;> cases hr <;> rfl
  | logic hop =>
    simp only [List.mem_cons, List.not_mem_nil, or_false] at hop
    rcases hop with rfl | rfl <;> rfl

theorem exists_arithmetic (h : op ∈ [.add, .sub, .mul, .div, .mod]) (hl : l.Numeric)
    (hr : r.Numeric) : ∃ t, Operates op l r t := by
  cases hl with
  | float => exact ⟨.float, .floatLeft h hr⟩
  | int =>
    cases hr with
    | float => exact ⟨.float, .floatRight h .int⟩
    | int => exact ⟨.int, .integers h⟩

theorem exists_operates_of_numeric (op : BinaryOp) (hl : l.Numeric) (hr : r.Numeric) :
    ∃ t, Operates op l r t := by
  cases op <;> first
    | exact exists_arithmetic (by decide) hl hr
    | exact ⟨.bool, .comparison (by decide) hl hr⟩
    | exact ⟨.bool, .logic (by decide)⟩

/-- An operation on operands that the rules do not allow is reported. -/
theorem exists_operates (h : Silent diagnostics (operation op l.toTy r.toTy p) f) :
    ∃ t, Operates op l r t := by
  by_cases hlogical : op.isLogical = true
  · have hop : op ∈ [.and, .or] := by
      cases op <;> first | exact absurd hlogical (by decide) | simp
    exact ⟨.bool, .logic hop⟩
  · cases hnumeric : l.toTy.isNumeric && r.toTy.isNumeric with
    | true =>
      obtain ⟨hl, hr⟩ := Bool.and_eq_true_iff.mp hnumeric
      exact exists_operates_of_numeric op (numeric_iff.mpr hl) (numeric_iff.mpr hr)
    | false =>
      have hreport : (operation op l.toTy r.toTy p f).2 =
          (report (.operands op l.toTy r.toTy) p f).2 := by
        simp only [operation, hlogical, hnumeric]
        cases op.isArithmetic <;> rfl
      unfold Silent at h
      rw [hreport] at h
      exact absurd h (not_silent_report _ _ f)

theorem prefixed_not (found : Ty) (p : Location) (f : Findings) :
    prefixed .not found p f = (.bool, f) := rfl

/-- A sign in front of what is not a number is reported. -/
theorem numeric_of_silent (h : Silent diagnostics (prefixed .neg t.toTy p) f) : t.Numeric := by
  cases hnumeric : t.toTy.isNumeric with
  | true => exact numeric_iff.mpr hnumeric
  | false =>
    have hreport : (prefixed .neg t.toTy p f).2 = (report (.negation t.toTy) p f).2 := by
      simp only [prefixed, hnumeric]
      rfl
    unfold Silent at h
    rw [hreport] at h
    exact absurd h (not_silent_report _ _ f)

end Operations

/-- A value that does not fit is reported. -/
theorem fits_of_silent {α : Type} {target : BaseType} {t : ValueTy} {fault : Fault} {p : Location}
    {x : StateM Findings α} {f : Findings} (hx : LogsFindings x)
    (h : Silent diagnostics (if (Ty.ofBase target).accepts t.toTy then x else do
      report fault p
      x) f) : Fits target t := by
  cases haccepts : (Ty.ofBase target).accepts t.toTy with
  | true => exact fits_iff.mpr haccepts
  | false =>
    simp only [haccepts, Bool.false_eq_true, ↓reduceIte] at h
    obtain ⟨hreport, _⟩ := (Silent.bind_iff (logs_report _ _) (fun _ => hx) f).mp h
    exact absurd hreport (not_silent_report _ _ f)

/-! ## Typing with the rules -/

theorem HaveTypes.length_eq {Γ : Scope} : ∀ {args : List Expr} {params : List BaseType}
    {ns : Types}, HaveTypes Γ args params ns → args.length = params.length
  | _, _, _, .nil => rfl
  | _, _, _, .cons _ _ hrest => congrArg (· + 1) hrest.length_eq

section Rules

variable {table : SymbolTable}

mutual
theorem infer_of_hasType : (e : Expr) → ∀ {t : ValueTy} {ns : Types},
    HasType table.scope e t ns → ∀ f, infer table e f = (t.toTy, f.after ns)
  | .binary op left right m, _, _, h, f => by
    cases h with
    | binary hleft hright hop =>
      simp only [infer, bind_run, infer_of_hasType left hleft, infer_of_hasType right hright,
        operation_run hop, record_run, after_after]
  | .unary .not operand m, _, _, h, f => by
    cases h with
    | not h =>
      simp only [infer, bind_run, infer_of_hasType operand h, prefixed_not]
      exact congrArg (Prod.mk Ty.bool) (after_after f _ [(m.id, .bool)])
  | .unary .neg operand m, _, _, h, f => by
    cases h with
    | neg h hnumeric =>
      simp only [infer, bind_run, infer_of_hasType operand h, prefixed, numeric_iff.mp hnumeric,
        ↓reduceIte, pure_run, record_run, after_after]
  | .assign name value m, _, _, h, f => by
    cases h with
    | assign hname h hfits =>
      have htype := (table.scope_hasVariable_iff name _).mp hname
      simp only [infer, htype, bind_run, infer_of_hasType value h, fits_iff.mp hfits, ↓reduceIte]
      rw [← toTy_ofBase, record_run, after_after]
  | .var name m, _, _, h, f => by
    cases h with
    | var hname =>
      have htype := (table.scope_hasVariable_iff name _).mp hname
      simp only [infer, htype, ← toTy_ofBase, record_run]
  | .number lexeme m, _, _, h, f => by
    cases h with
    | integer hpoint =>
      simp only [infer, Ty.ofLiteral, hpoint, ↓reduceIte]
      rfl
    | decimal hpoint =>
      simp only [infer, Ty.ofLiteral, hpoint, ↓reduceIte]
      rfl
  | .omitted m, _, _, h, f => by
    cases h with
    | omitted =>
      simp only [infer]
      rfl
  | .call name args m, _, _, h, f => by
    cases h with
    | call hname h =>
      have hsignature : table.signatureOf? name = some _ := hname
      simp only [infer, hsignature, h.length_eq, ↓reduceIte, bind_run,
        inferArguments_of_haveTypes name 1 args h, ← toTy_ofBase, record_run, after_after]

theorem inferArguments_of_haveTypes (function : String) (position : Nat) :
    (args : List Expr) → ∀ {params : List BaseType} {ns : Types},
      HaveTypes table.scope args params ns →
        ∀ f, inferArguments table function position args params f = ((), f.after ns)
  | [], _, _, h, f => by
    cases h with
    | nil =>
      unfold inferArguments
      rfl
  | arg :: args, _, _, h, f => by
    cases h with
    | cons h hfits hrest =>
      simp only [inferArguments, bind_run, infer_of_hasType arg h, fits_iff.mp hfits, ↓reduceIte,
        inferArguments_of_haveTypes function (position + 1) args hrest, after_after]
end

/-! ## Only with the rules -/

mutual
theorem hasType_of_silent : (e : Expr) → ∀ f, Silent diagnostics (infer table e) f →
    ∃ t ns, HasType table.scope e t ns
  | .binary op left right m, f, h => by
    simp only [infer] at h
    obtain ⟨hleft, h⟩ := (Silent.bind_iff (logs_infer table left) (fun l =>
      (logs_infer table right).bind fun r => (logs_operation op l r _).bind fun t =>
        logs_record m t) f).mp h
    obtain ⟨l, ns, hl⟩ := hasType_of_silent left f hleft
    rw [infer_of_hasType left hl] at h
    obtain ⟨hright, h⟩ := (Silent.bind_iff (logs_infer table right) (fun r =>
      (logs_operation op l.toTy r _).bind fun t => logs_record m t) _).mp h
    obtain ⟨r, ns', hr⟩ := hasType_of_silent right _ hright
    rw [infer_of_hasType right hr] at h
    obtain ⟨hop, _⟩ := (Silent.bind_iff (logs_operation op _ _ _) (fun t => logs_record m t) _).mp h
    obtain ⟨t, ht⟩ := exists_operates hop
    exact ⟨t, _, .binary hl hr ht⟩
  | .unary op operand m, f, h => by
    simp only [infer] at h
    obtain ⟨hoperand, h⟩ := (Silent.bind_iff (logs_infer table operand) (fun found =>
      (logs_prefixed op found _).bind fun t => logs_record m t) f).mp h
    obtain ⟨t, ns, ht⟩ := hasType_of_silent operand f hoperand
    rw [infer_of_hasType operand ht] at h
    obtain ⟨hop, _⟩ := (Silent.bind_iff (logs_prefixed op _ _) (fun t => logs_record m t) _).mp h
    cases op with
    | not => exact ⟨.bool, _, .not ht⟩
    | neg => exact ⟨t, _, .neg ht (numeric_of_silent hop)⟩
  | .assign name value m, f, h => by
    simp only [infer] at h
    cases htype : table.typeOf? name with
    | none =>
      simp only [htype] at h
      obtain ⟨hreport, _⟩ := (Silent.bind_iff (logs_report _ _) (fun _ => logs_record m _) f).mp h
      exact absurd hreport (not_silent_report _ _ f)
    | some type =>
      simp only [htype] at h
      obtain ⟨hvalue, h⟩ := (Silent.bind_iff (logs_infer table value) (fun found =>
        .ite (logs_record m _) ((logs_report _ _).bind fun _ => logs_record m _)) f).mp h
      obtain ⟨t, ns, ht⟩ := hasType_of_silent value f hvalue
      rw [infer_of_hasType value ht] at h
      have hname := (table.scope_hasVariable_iff name type).mpr htype
      exact ⟨_, _, .assign hname ht (fits_of_silent (logs_record m _) h)⟩
  | .var name m, f, h => by
    simp only [infer] at h
    cases htype : table.typeOf? name with
    | none =>
      simp only [htype] at h
      obtain ⟨hreport, _⟩ := (Silent.bind_iff (logs_report _ _) (fun _ => logs_record m _) f).mp h
      exact absurd hreport (not_silent_report _ _ f)
    | some type => exact ⟨_, _, .var ((table.scope_hasVariable_iff name type).mpr htype)⟩
  | .number lexeme m, f, _ => by
    by_cases hpoint : '.' ∈ lexeme.toList
    · exact ⟨_, _, .decimal hpoint⟩
    · exact ⟨_, _, .integer hpoint⟩
  | .omitted m, f, _ => ⟨_, _, .omitted⟩
  | .call name args m, f, h => by
    simp only [infer] at h
    cases hsignature : table.signatureOf? name with
    | none =>
      simp only [hsignature] at h
      obtain ⟨hreport, _⟩ := (Silent.bind_iff (logs_report _ _) (fun _ => logs_record m _) f).mp h
      exact absurd hreport (not_silent_report _ _ f)
    | some signature =>
      simp only [hsignature] at h
      by_cases hlength : args.length = signature.params.length
      · simp only [hlength, ↓reduceIte] at h
        obtain ⟨hargs, _⟩ := (Silent.bind_iff (logs_inferArguments table name 1 args _)
          (fun _ => logs_record m _) f).mp h
        obtain ⟨ns, hns⟩ := haveTypes_of_silent name 1 args signature.params hlength f hargs
        exact ⟨_, _, .call hsignature hns⟩
      · simp only [hlength, ↓reduceIte] at h
        obtain ⟨hreport, _⟩ :=
          (Silent.bind_iff (logs_report _ _) (fun _ => logs_record m _) f).mp h
        exact absurd hreport (not_silent_report _ _ f)

theorem haveTypes_of_silent (function : String) (position : Nat) :
    (args : List Expr) → (params : List BaseType) → args.length = params.length →
      ∀ f, Silent diagnostics (inferArguments table function position args params) f →
        ∃ ns, HaveTypes table.scope args params ns
  | [], [], _, _, _ => ⟨[], .nil⟩
  | [], _ :: _, hlength, _, _ => absurd hlength (by simp)
  | _ :: _, [], hlength, _, _ => absurd hlength (by simp)
  | arg :: args, param :: params, hlength, f, h => by
    simp only [inferArguments] at h
    have hlogs := logs_inferArguments table function (position + 1) args params
    obtain ⟨harg, h⟩ := (Silent.bind_iff (logs_infer table arg) (fun found =>
      .ite hlogs ((logs_report _ _).bind fun _ => hlogs)) f).mp h
    obtain ⟨t, ns, ht⟩ := hasType_of_silent arg f harg
    rw [infer_of_hasType arg ht] at h
    have hfits := fits_of_silent hlogs h
    simp only [fits_iff.mp hfits, ↓reduceIte] at h
    obtain ⟨ns', hns'⟩ := haveTypes_of_silent function (position + 1) args params
      (Nat.succ.inj hlength) _ h
    exact ⟨_, .cons ht hfits hns'⟩
end

end Rules

end Typing
end MiniCheck
