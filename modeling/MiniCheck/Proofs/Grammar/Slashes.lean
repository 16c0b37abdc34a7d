import MiniCheck.Proofs.Grammar.ProgramReading
import MiniCheck.Proofs.Token.Rereading

/-!
# What follows a slash in a program

A slash stands only between operands, so an operand begins right after it, wherever in a
program it is.
-/

namespace MiniCheck
namespace Grammar

open Token (Kind)

/-- After every slash an operand begins. -/
inductive Divided : List Token → Prop
  | nil : Divided []
  | cons {t : Token} {ts : List Token} (h : t.kind = .slash → (headKind ts).opens = true)
      (hrest : Divided ts) : Divided (t :: ts)

namespace Divided

variable {t : Token} {ts us : List Token}

theorem plain {k : Kind} (t : Token.Of k) (hts : Divided ts) (hk : k ≠ .slash := by decide) :
    Divided (t.val :: ts) :=
  .cons (fun h => absurd (t.property.symm.trans h) hk) hts

/-- No slash is the last token, so the tokens may stand in front of any others. -/
theorem append (hts : Divided ts) (hus : Divided us) : Divided (ts ++ us) := by
  induction hts with
  | nil => exact hus
  | @cons t ts h hrest ih =>
    refine .cons (fun hslash => ?_) ih
    have hopens := h hslash
    cases ts with
    | nil => exact absurd hopens (by decide)
    | cons u ts => exact hopens

/-- Written without a gap, no two tokens of a program begin a comment. -/
theorem isChain (h : Divided ts) : ts.IsChain Token.Fits := by
  induction h with
  | nil => exact .nil
  | @cons t ts h hrest ih =>
    rw [List.isChain_cons]
    refine ⟨fun u hu hslash => ?_, ih⟩
    have hopens : u.kind.opens = true := by
      have hhead := h hslash
      rw [headKind, hu] at hhead
      exact hhead
    constructor
    · intro hkind
      rw [hkind] at hopens
      exact absurd hopens (by decide)
    · intro hkind
      rw [hkind] at hopens
      exact absurd hopens (by decide)

end Divided

theorem ExprDerivation.divided : ∀ {r : ExprRule} (D : ExprDerivation r), Divided D.tokens
  | _, signed op sign operand =>
    .plain sign operand.divided (by cases op <;> decide)
  | _, parenthesized left inner right => .plain left (inner.divided.append (.plain right .nil))
  | _, number token => .plain token .nil
  | _, assign name equal value => .plain name (.plain equal value.divided)
  | _, callEmpty name left right => .plain name (.plain left (.plain right .nil))
  | _, call name left args right =>
    .plain name (.plain left (args.divided.append (.plain right .nil)))
  | _, var name => .plain name .nil
  | _, tighter inner => inner.divided
  | _, binary left op level sign right => by
    have hright := right.opens_headKind []
    rw [List.append_nil] at hright
    exact left.divided.append (.cons (fun _ => hright) right.divided)
  | _, last arg => arg.divided
  | _, more arg comma rest => arg.divided.append (.plain comma rest.divided)

theorem TypeWord.divided {ts : List Token} (type : TypeWord) (hts : Divided ts) :
    Divided (type.token.val :: ts) :=
  .plain type.token hts (by cases type.type <;> decide)

theorem Parameters.divided : ∀ P : Parameters, Divided P.tokens
  | last type name => type.divided (.plain name .nil)
  | more type name comma rest => type.divided (.plain name (.plain comma rest.divided))

theorem parameterTokens_divided (P : Option Parameters) : Divided (parameterTokens P) := by
  cases P with
  | none => exact .nil
  | some P => exact P.divided

theorem Initializer.divided (I : Initializer) : Divided I.tokens := by
  cases I with
  | absent => exact .nil
  | given equal value => exact .plain equal value.divided

theorem Declarators.divided : ∀ D : Declarators, Divided D.tokens
  | last name init => .plain name init.divided
  | more name init comma rest => .plain name (init.divided.append (.plain comma rest.divided))

theorem Clause.divided (C : Clause) : Divided C.tokens := by
  cases C with
  | omitted => exact .nil
  | given value => exact value.divided

theorem StmtDerivation.divided : ∀ {r : StmtRule} (D : StmtDerivation r), Divided D.tokens
  | _, declared declaration => declaration.divided
  | _, empty semicolon => .plain semicolon .nil
  | _, command inner => inner.divided
  | _, block left body right => .plain left (body.divided.append (.plain right .nil))
  | _, branch word left condition right thenBody =>
    .plain word (.plain left (condition.divided.append (.plain right thenBody.divided)))
  | _, branchElse word left condition right thenBody elseWord elseBody =>
    .plain word (.plain left (condition.divided.append (.plain right
      (thenBody.divided.append (.plain elseWord elseBody.divided)))))
  | _, whileLoop word left condition right body =>
    .plain word (.plain left (condition.divided.append (.plain right body.divided)))
  | _, forLoop word left init first condition second update right body =>
    .plain word (.plain left (init.divided.append (.plain first (condition.divided.append
      (.plain second (update.divided.append (.plain right body.divided)))))))
  | _, ret word value semicolon => .plain word (value.divided.append (.plain semicolon .nil))
  | _, print word left value right semicolon =>
    .plain word (.plain left (value.divided.append (.plain right (.plain semicolon .nil))))
  | _, expr value semicolon => value.divided.append (.plain semicolon .nil)
  | _, nil => .nil
  | _, cons first rest => first.divided.append rest.divided
  | _, function type name left params right leftBrace body rightBrace =>
    type.divided (.plain name (.plain left ((parameterTokens_divided params).append
      (.plain right (.plain leftBrace (body.divided.append (.plain rightBrace .nil)))))))
  | _, vars type names semicolon => type.divided (names.divided.append (.plain semicolon .nil))
  | _, done => .nil
  | _, next first rest => first.divided.append rest.divided

end Grammar

/-- After every slash of a program an operand begins. -/
theorem Program.divided {ts : List Token} {p : Program} (h : ofTokens ts = .ok p) :
    Grammar.Divided ts := by
  obtain ⟨D, rfl, _⟩ := ofTokens_eq_ok_iff.mp h
  exact D.divided

end MiniCheck
