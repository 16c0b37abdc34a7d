import MiniCheck.Proofs.Grammar.StmtWriting
import MiniCheck.Proofs.Grammar.WellFormed

/-!
# Programs and their trees

The trees of programs are the well-formed ones. Each of them can be written so that it is
read again, as long as that takes no more nesting levels than there are.
-/

namespace MiniCheck
namespace Program

open Grammar

/-- The tokens of a program. -/
def written (p : Program) : List Token := Stmt.writtenAll p

/-- How many nesting levels are open at once at most in what is written for a program. -/
def levels (p : Program) : Nat := Stmt.levelsAll p

/-- Whatever is read is well-formed. What is well-formed is read from what is written for it,
with other numbers and places, exactly if that opens no more nesting levels than may be open. -/
theorem ofTokens_written_iff :
    (∀ (ts : List Token) (p : Program), ofTokens ts = .ok p → p.WellFormed) ∧
      ∀ p : Program, p.WellFormed → (p.levels ≤ maxNesting ↔
        ∃ q, ofTokens p.written = .ok q ∧ relabel .unmarked q = relabel .unmarked p) := by
  refine ⟨fun ts p => wellFormed_of_ofTokens, fun p h => ?_⟩
  obtain ⟨D, hD⟩ := StmtDerivation.exists_program h
  constructor
  · intro hlevels
    have hnesting : D.nesting ≤ maxNesting := by
      rw [hD.nesting]
      exact hlevels
    exact ⟨D.tree 0, ofTokens_eq_ok_iff.mpr ⟨D, hD.tokens, hD.settled, hnesting, rfl⟩, hD.tree 0⟩
  · rintro ⟨q, hq, _⟩
    obtain ⟨E, htokens, hsettled, hnesting, _⟩ := ofTokens_eq_ok_iff.mp hq
    have heq : E.tokens ++ [] = D.tokens ++ [] := by rw [htokens, hD.tokens, written]
    have hED : E = D := (StmtDerivation.unique E D [] [] heq hsettled hD.settled rfl rfl).1
    rw [hED, hD.nesting] at hnesting
    exact hnesting

/-- The sum has an assignment in parentheses, the loop behind the `else` a semicolon as body. -/
theorem ofTokens_written_branch :
    let sum : Expr := .binary .add (.assign "x" (.number "1" ⟨0, ⟨1, 20⟩⟩) ⟨1, ⟨1, 16⟩⟩)
      (.number "2" ⟨2, ⟨1, 25⟩⟩) ⟨3, ⟨1, 23⟩⟩
    let loop : Stmt := .whileLoop (.var "x" ⟨5, ⟨1, 48⟩⟩) (.expr (.omitted ⟨6, ⟨1, 51⟩⟩) ⟨1, 51⟩)
      ⟨1, 42⟩
    let p : Program := [.declareFun "f" .int [⟨"x", .int, ⟨1, 11⟩⟩]
      [.branch sum (.ret (.omitted ⟨4, ⟨1, 34⟩⟩) ⟨1, 28⟩) (some loop) ⟨1, 12⟩] ⟨1, 5⟩]
    p.WellFormed ∧ p.levels ≤ maxNesting ∧
      ∃ q, ofTokens p.written = .ok q ∧ relabel .unmarked q = relabel .unmarked p ∧
        q.WellFormed := by
  intro sum loop p
  have hsum : sum.Complete := ⟨trivial, trivial⟩
  have hloop : loop.WellFormed := ⟨trivial, .inl rfl⟩
  have hp : p.WellFormed := by
    intro s hs
    cases List.mem_singleton.mp hs
    exact ⟨rfl, rfl, ⟨hsum, .inl rfl, rfl, hloop⟩, trivial⟩
  have hlevels : p.levels ≤ maxNesting := by decide +kernel
  obtain ⟨q, hq, hsame⟩ := (ofTokens_written_iff.2 p hp).mp hlevels
  exact ⟨hp, hlevels, q, hq, hsame, ofTokens_written_iff.1 _ q hq⟩

end Program
end MiniCheck
