import MiniCheck.Proofs.Typing.Parallel

/-!
# Reports of two checks compared

One check may know more types than another. What it knows more is ordered: an unknown type
can turn out to be that of a number, and what was taken for an integer can turn out to be a
`float`. Along this order everything that does not fit goes on not to fit, so the reports of
the check that knows less come again, at the same places, with other types in them perhaps.
-/

namespace MiniCheck

namespace Ty

/-- Unknown is below the types of numbers, and `int` below `float`. -/
inductive Below : Ty → Ty → Prop
  | refl (t : Ty) : Below t t
  | unknownInt : Below unknown int
  | unknownFloat : Below unknown float
  | widened : Below int float

namespace Below

variable {s t s' t' : Ty}

theorem of_ne_void {type : BaseType} (h : type ≠ .void) : Below unknown type := by
  cases type with
  | int => exact .unknownInt
  | float => exact .unknownFloat
  | void => exact absurd rfl h

theorem isNumeric_eq (h : Below s t) : s.isNumeric = t.isNumeric := by
  cases h <;> rfl

theorem isCondition_eq (h : Below s t) : s.isCondition = t.isCondition := by
  cases h <;> rfl

/-- Where a type is accepted, so is one below it. -/
theorem accepts {target : Ty} (h : Below s t) (ht : target.accepts t = true) :
    target.accepts s = true := by
  cases h with
  | refl => exact ht
  | unknownInt => exact accepts_unknown target
  | unknownFloat => exact accepts_unknown target
  | widened => cases target <;> simp_all [Ty.accepts]

theorem eq_float (h : Below s t) (hs : s = float) : t = float := by
  cases h with
  | refl => exact hs
  | unknownInt => cases hs
  | unknownFloat => rfl
  | widened => rfl

/-- Unknown operands give an `int`, which what is known of them later can widen only. -/
theorem arithmetic (h : Below s t) (h' : Below s' t') :
    Below (Ty.arithmetic s s') (Ty.arithmetic t t') := by
  have hfloat : s = float ∨ s' = float → t = float ∨ t' = float := Or.imp h.eq_float h'.eq_float
  simp only [Ty.arithmetic, Bool.or_eq_true, decide_eq_true_eq]
  split
  · rename_i hs
    rw [if_pos (hfloat hs)]
    exact .refl _
  · split
    · exact .widened
    · exact .refl _

end Below

end Ty

inductive FaultKind
  | duplicateVariable
  | duplicateFunction
  | undeclaredVariable
  | undeclaredFunction
  | initializer
  | assignment
  | returned
  | argument
  | argumentCount
  | operands
  | negation
  | condition
deriving DecidableEq, Repr

def Fault.kind : Fault → FaultKind
  | duplicateVariable _ => .duplicateVariable
  | duplicateFunction _ => .duplicateFunction
  | undeclaredVariable _ => .undeclaredVariable
  | undeclaredFunction _ => .undeclaredFunction
  | initializer _ _ _ => .initializer
  | assignment _ _ _ => .assignment
  | returned _ _ => .returned
  | argument _ _ _ _ => .argument
  | argumentCount _ _ _ => .argumentCount
  | operands _ _ _ => .operands
  | negation _ => .negation
  | condition _ _ => .condition

/-- What kind of fault is where. -/
def Diagnostic.outline (d : Diagnostic) : FaultKind × Location := (d.fault.kind, d.location)

namespace Typing

/-- Apart from what is settled, the reports of `ds` come again in `ds'`, in outline. -/
def Remain (settled : Fault → Bool) (ds ds' : List Diagnostic) : Prop :=
  ((ds.filter fun d => !settled d.fault).map Diagnostic.outline).Sublist
    (ds'.map Diagnostic.outline)

namespace Remain

variable {settled : Fault → Bool} {ds ds' ds'' : List Diagnostic} {d d' : Diagnostic}

theorem nil (settled : Fault → Bool) (ds : List Diagnostic) : Remain settled [] ds :=
  List.nil_sublist _

theorem settle (h : Remain settled ds ds') (hd : settled d.fault = true) :
    Remain settled (d :: ds) ds' := by
  unfold Remain
  rw [List.filter_cons_of_neg (by simp [hd])]
  exact h

theorem of_suffix (h : Remain settled ds ds') (hs : ds' <:+ ds'') : Remain settled ds ds'' :=
  h.trans (hs.sublist.map _)

theorem cons_cons (h : Remain settled ds ds') (hd : d.outline = d'.outline) :
    Remain settled (d :: ds) (d' :: ds') := by
  cases hsettled : settled d.fault with
  | true => exact (h.settle hsettled).of_suffix (List.suffix_cons d' ds')
  | false =>
    unfold Remain
    rw [List.filter_cons_of_pos (by simp [hsettled]), List.map_cons, List.map_cons, hd]
    exact List.Sublist.cons_cons _ h

theorem reverse (h : Remain settled ds ds') : Remain settled ds.reverse ds'.reverse := by
  unfold Remain
  rw [List.filter_reverse, List.map_reverse, List.map_reverse]
  exact List.Sublist.reverse h

end Remain

end Typing
end MiniCheck
