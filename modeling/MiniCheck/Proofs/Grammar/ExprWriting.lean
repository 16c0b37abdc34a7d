import Mathlib.Logic.Basic
import MiniCheck.Proofs.Grammar.ExprDerivation
import MiniCheck.Proofs.Tree.Relabelling
import MiniCheck.Proofs.Tree.WellFormed

/-!
# Writing expressions

An expression is written with every operand in parentheses that is more than a name or a
literal. No level of operations has to be told from another then, and no assignment can take
in an operator behind it, so what is written has a settled derivation with the same tree.
-/

namespace MiniCheck

namespace Token

/-- A token that is spelt in one way alone. -/
def ofKind (k : Kind) : Token := ⟨k, k.spelling?.getD "", .first⟩

def ofName (name : String) : Token := ⟨.name, name, .first⟩

def ofNumber (lexeme : String) : Token := ⟨.number, lexeme, .first⟩

end Token

namespace Expr

open Token (ofKind ofName ofNumber)

def isBare : Expr → Bool
  | var _ _ | number _ _ => true
  | _ => false

/-- The tokens of an operand. -/
def enclosed (e : Expr) (ts : List Token) : List Token :=
  if e.isBare then ts else ofKind .leftParen :: (ts ++ [ofKind .rightParen])

mutual
/-- The tokens of an expression. -/
@[simp]
def written : Expr → List Token
  | binary op left right _ =>
    left.enclosed left.written ++ ofKind op.sign :: right.enclosed right.written
  | unary op operand _ => ofKind op.sign :: operand.enclosed operand.written
  | assign name value _ => ofName name :: ofKind .equal :: value.written
  | var name _ => [ofName name]
  | number lexeme _ => [ofNumber lexeme]
  | omitted _ => []
  | call name args _ =>
    ofName name :: ofKind .leftParen :: (writtenAll args ++ [ofKind .rightParen])

/-- The tokens of arguments. -/
@[simp]
def writtenAll : List Expr → List Token
  | [] => []
  | [e] => e.written
  | e :: e' :: es => e.written ++ ofKind .comma :: writtenAll (e' :: es)
end

/-- Parentheses open a nesting level. -/
def enclosedLevels (e : Expr) (levels : Nat) : Nat := if e.isBare then levels else levels + 1

mutual
/-- How many nesting levels are open at once at most in what is written. -/
@[simp]
def levels : Expr → Nat
  | binary _ left right _ =>
    max (left.enclosedLevels left.levels) (right.enclosedLevels right.levels)
  | unary _ operand _ => operand.enclosedLevels operand.levels + 1
  | assign _ value _ => value.levels + 1
  | var _ _ | number _ _ => 1
  | omitted _ => 0
  | call _ args _ => levelsAll args + 1

@[simp]
def levelsAll : List Expr → Nat
  | [] => 0
  | e :: es => max e.levels (levelsAll es)
end

end Expr

namespace Grammar

open Token (ofKind ofName ofNumber)

instance : (r : ExprRule) → Labelled r.Result
  | .operation _ => inferInstanceAs (Labelled Expr)
  | .arguments => inferInstanceAs (Labelled (List Expr))

/-- The derivation is settled, has the tokens `ts` and opens `levels` nesting levels. It stands
for `t`, except for numbers and places. -/
structure ExprDerivation.Writes {r : ExprRule} (D : ExprDerivation r) (ts : List Token)
    (levels : Nat) (t : r.Result) : Prop where
  tokens : D.tokens = ts
  settled : D.Settled
  nesting : D.nesting = levels
  tree : ∀ i, relabel .unmarked (D.tree i) = relabel .unmarked t

namespace ExprDerivation

attribute [simp] tokens nesting

/-- The derivation writes `e` as an operand. -/
abbrev WritesOperand {n : Nat} (D : ExprDerivation (.operation n)) (e : Expr) : Prop :=
  D.Writes (e.enclosed e.written) (e.enclosedLevels e.levels) e

/-- The derivation writes `e`. -/
abbrev WritesExpr {n : Nat} (D : ExprDerivation (.operation n)) (e : Expr) : Prop :=
  D.Writes e.written e.levels e

section Operands

variable {m n levels : Nat} {ts : List Token} {e : Expr}

/-- What is derived at one level is derived at any looser one. -/
theorem Writes.exists_looser (hmn : m ≤ n) {D : ExprDerivation (.operation m)}
    (hD : D.Writes ts levels e) :
    ∃ E : ExprDerivation (.operation n), E.Writes ts levels e ∧ E.isOpen = D.isOpen := by
  induction hmn with
  | refl => exact ⟨D, hD, rfl⟩
  | step hmn ih =>
    obtain ⟨E, hE, hopen⟩ := ih
    exact ⟨.tighter E, ⟨hE.tokens, hE.settled, hE.nesting, hE.tree⟩, hopen⟩

theorem Writes.exists_expression {D : ExprDerivation (.operation m)} (hD : D.Writes ts levels e)
    (hm : m ≤ BinaryOp.topLevel) : ∃ E : ExpressionDerivation, E.Writes ts levels e := by
  obtain ⟨E, hE, _⟩ := hD.exists_looser hm
  exact ⟨E, hE⟩

theorem writes_var (name : String) (m : Mark) :
    (var ⟨ofName name, rfl⟩).WritesExpr (.var name m) :=
  ⟨rfl, trivial, rfl, fun _ => rfl⟩

theorem writes_number (lexeme : String) (m : Mark) :
    (number ⟨ofNumber lexeme, rfl⟩).WritesExpr (.number lexeme m) :=
  ⟨rfl, trivial, rfl, fun _ => rfl⟩

/-- What is written as an operand is one, and nothing behind it can be taken in. -/
theorem Writes.exists_operand {D : ExpressionDerivation} (hD : D.WritesExpr e) :
    ∃ E : ExprDerivation (.operation 0), E.WritesOperand e ∧ E.isOpen = false := by
  have hparenthesized : e.isBare = false →
      ∃ E : ExprDerivation (.operation 0), E.WritesOperand e ∧ E.isOpen = false := by
    intro hbare
    refine ⟨.parenthesized ⟨ofKind .leftParen, rfl⟩ D ⟨ofKind .rightParen, rfl⟩, ?_, rfl⟩
    refine ⟨?_, ?_, ?_, ?_⟩
    · simp [Expr.enclosed, hbare, hD.tokens]
    · exact hD.settled
    · simp [Expr.enclosedLevels, hbare, hD.nesting]
    · exact hD.tree
  cases e with
  | var name m => exact ⟨_, writes_var name m, rfl⟩
  | number lexeme m => exact ⟨_, writes_number lexeme m, rfl⟩
  | _ => exact hparenthesized rfl

end Operands

/-! ## One constructor at a time -/

section Constructors

variable {left right operand value : Expr} {name : String} (m : Mark)

theorem writes_binary {n : Nat} {op : BinaryOp} {L : ExprDerivation (.operation (n + 1))}
    {R : ExprDerivation (.operation n)} (level : op.level = n + 1) (hL : L.WritesOperand left)
    (hclosed : L.isOpen = false) (hR : R.WritesOperand right) :
    (binary L op level ⟨ofKind op.sign, rfl⟩ R).WritesExpr (.binary op left right m) := by
  refine ⟨?_, ⟨hL.settled, hclosed, hR.settled⟩, ?_, fun i => ?_⟩
  · simp [hL.tokens, hR.tokens]
  · simp [hL.nesting, hR.nesting]
  · exact congrArg₂ (fun a b => Expr.binary op a b ⟨0, .first⟩) (hL.tree i) (hR.tree _)

theorem writes_signed {op : UnaryOp} {D : ExprDerivation (.operation 0)}
    (hD : D.WritesOperand operand) :
    (signed op ⟨ofKind op.sign, rfl⟩ D).WritesExpr (.unary op operand m) := by
  refine ⟨?_, hD.settled, ?_, fun i => ?_⟩
  · simp [hD.tokens]
  · simp [hD.nesting]
  · exact congrArg (fun a => Expr.unary op a ⟨0, .first⟩) (hD.tree i)

theorem writes_assign {D : ExpressionDerivation} (hD : D.WritesExpr value) :
    (assign ⟨ofName name, rfl⟩ ⟨ofKind .equal, rfl⟩ D).WritesExpr (.assign name value m) := by
  refine ⟨?_, hD.settled, ?_, fun i => ?_⟩
  · simp [hD.tokens]
  · simp [hD.nesting]
  · exact congrArg (fun a => Expr.assign name a ⟨0, .first⟩) (hD.tree i)

theorem writes_callEmpty :
    (callEmpty ⟨ofName name, rfl⟩ ⟨ofKind .leftParen, rfl⟩ ⟨ofKind .rightParen, rfl⟩).WritesExpr
      (.call name [] m) :=
  ⟨rfl, trivial, rfl, fun _ => rfl⟩

theorem writes_call {args : List Expr} {A : ExprDerivation .arguments}
    (hA : A.Writes (Expr.writtenAll args) (Expr.levelsAll args) args) :
    (call ⟨ofName name, rfl⟩ ⟨ofKind .leftParen, rfl⟩ A ⟨ofKind .rightParen, rfl⟩).WritesExpr
      (.call name args m) := by
  refine ⟨?_, hA.settled, ?_, fun i => ?_⟩
  · simp [hA.tokens]
  · simp [hA.nesting]
  · change relabel .unmarked (Expr.call name (A.tree i) _) =
      relabel .unmarked (Expr.call name args m)
    rw [relabel_call, relabel_call]
    exact congrArg (fun as => Expr.call name as ⟨0, .first⟩) (hA.tree i)

end Constructors

mutual
/-- A complete expression is derived from what is written for it. -/
theorem exists_writes : (e : Expr) → e.Complete → ∃ D : ExpressionDerivation, D.WritesExpr e
  | .binary op left right m, h => by
    obtain ⟨L, hL⟩ := exists_writes left h.1
    obtain ⟨R, hR⟩ := exists_writes right h.2
    obtain ⟨L, hL, hclosed⟩ := hL.exists_operand
    obtain ⟨R, hR, _⟩ := hR.exists_operand
    obtain ⟨k, hk⟩ := Nat.exists_eq_succ_of_ne_zero (Nat.ne_of_gt op.level_pos)
    obtain ⟨L, hL, hopen⟩ := hL.exists_looser (Nat.zero_le (k + 1))
    obtain ⟨R, hR, _⟩ := hR.exists_looser (Nat.zero_le k)
    have hlevel := op.level_le_topLevel
    rw [hk] at hlevel
    exact (writes_binary m hk hL (hopen.trans hclosed) hR).exists_expression hlevel
  | .unary op operand m, h => by
    obtain ⟨D, hD⟩ := exists_writes operand h
    obtain ⟨D, hD, _⟩ := hD.exists_operand
    exact (writes_signed m hD).exists_expression (Nat.zero_le _)
  | .assign name value m, h => by
    obtain ⟨D, hD⟩ := exists_writes value h
    exact (writes_assign m hD).exists_expression (Nat.zero_le _)
  | .var name m, _ => (writes_var name m).exists_expression (Nat.zero_le _)
  | .number lexeme m, _ => (writes_number lexeme m).exists_expression (Nat.zero_le _)
  | .omitted m, h => nomatch h
  | .call name [] m, _ => (writes_callEmpty m).exists_expression (Nat.zero_le _)
  | .call name (arg :: args) m, h => by
    obtain ⟨A, hA⟩ := exists_writesAll (arg :: args) h (List.cons_ne_nil _ _)
    exact (writes_call m hA).exists_expression (Nat.zero_le _)

theorem exists_writesAll : (es : List Expr) → Expr.AllComplete es → es ≠ [] →
    ∃ A : ExprDerivation .arguments, A.Writes (Expr.writtenAll es) (Expr.levelsAll es) es
  | [], _, hne => absurd rfl hne
  | [e], h, _ => by
    obtain ⟨D, hD⟩ := exists_writes e h.1
    refine ⟨.last D, hD.tokens, hD.settled, ?_, fun i => ?_⟩
    · simp [hD.nesting]
    · exact congrArg (fun a => [a]) (hD.tree i)
  | e :: e' :: es, h, _ => by
    obtain ⟨D, hD⟩ := exists_writes e h.1
    obtain ⟨A, hA⟩ := exists_writesAll (e' :: es) h.2 (List.cons_ne_nil _ _)
    refine ⟨.more D ⟨ofKind .comma, rfl⟩ A, ?_, ⟨hD.settled, hA.settled⟩, ?_, fun i => ?_⟩
    · simp [hD.tokens, hA.tokens]
    · simp [hD.nesting, hA.nesting]
    · exact congrArg₂ List.cons (hD.tree i) (hA.tree _)
end

end ExprDerivation
end Grammar
end MiniCheck
