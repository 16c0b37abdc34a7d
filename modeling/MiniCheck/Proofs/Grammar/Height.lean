import MiniCheck.Proofs.Grammar.ProgramReading
import MiniCheck.Proofs.Tree.Height

/-!
# How high the expressions of a program are

The limit on nesting levels counts operands that lie within each other. It bounds how often a
way down an expression turns off the left edge, and so the height of an expression by the
longest run of left operands in it. The run itself has no bound: the operations of one level
are read one after the other without a new nesting level, however many there are.
-/

namespace MiniCheck
namespace Grammar

namespace ExprRule

/-- On the way from an operand to one inside it there is at most one turn for each level of
operations, and one more for the operand itself. -/
def TurnsWithin (depth : Nat) : (r : ExprRule) → r.Result → Prop
  | operation n, e => e.turns + BinaryOp.topLevel ≤ (BinaryOp.topLevel + 1) * depth + n
  | arguments, es => Expr.maxTurns es ≤ (BinaryOp.topLevel + 1) * depth

end ExprRule

open ExprRule (TurnsWithin) in
theorem ExprDerivation.turnsWithin : ∀ {r : ExprRule} (D : ExprDerivation r) (i : Nat),
    r.TurnsWithin D.nesting (D.tree i)
  | _, signed op sign operand, i => by
    have h := operand.turnsWithin i
    simp only [TurnsWithin, BinaryOp.topLevel, nesting, tree, Expr.turns] at h ⊢
    omega
  | _, parenthesized left inner right, i => by
    have h := inner.turnsWithin i
    simp only [TurnsWithin, BinaryOp.topLevel, nesting, tree] at h ⊢
    omega
  | _, number token, _ => Nat.le_refl _
  | _, assign name equal value, i => by
    have h := value.turnsWithin i
    simp only [TurnsWithin, BinaryOp.topLevel, nesting, tree, Expr.turns] at h ⊢
    omega
  | _, callEmpty name left right, _ => Nat.le_refl _
  | _, call name left args right, i => by
    have h := args.turnsWithin i
    simp only [TurnsWithin, BinaryOp.topLevel, nesting, tree, Expr.turns] at h ⊢
    omega
  | _, var name, _ => Nat.le_refl _
  | _, tighter inner, i => Nat.le_succ_of_le (inner.turnsWithin i)
  | _, binary left op level sign right, i => by
    have hleft := left.turnsWithin i
    have hright := right.turnsWithin (i + left.size)
    simp only [TurnsWithin, BinaryOp.topLevel, nesting, tree, Expr.turns] at hleft hright ⊢
    omega
  | _, last arg, i => by
    have h := arg.turnsWithin i
    simp only [TurnsWithin, BinaryOp.topLevel, nesting, tree, Expr.maxTurns] at h ⊢
    omega
  | _, more arg comma rest, i => by
    have harg := arg.turnsWithin i
    have hrest := rest.turnsWithin (i + arg.size)
    simp only [TurnsWithin, BinaryOp.topLevel, nesting, tree, Expr.maxTurns] at harg hrest ⊢
    omega

/-- What a statement can hold: an expression that was read with at most `depth` nesting levels,
or an omitted one. -/
def ReadWithin (depth : Nat) (e : Expr) : Prop :=
  e.isOmitted = true ∨
    ∃ (E : ExpressionDerivation) (i : Nat), E.nesting ≤ depth ∧ E.tree i = e

namespace ReadWithin

variable {depth more : Nat} {e : Expr}

theorem mono (h : ReadWithin depth e) (hle : depth ≤ more) : ReadWithin more e := by
  rcases h with h | ⟨E, i, hn, rfl⟩
  · exact .inl h
  · exact .inr ⟨E, i, Nat.le_trans hn hle, rfl⟩

theorem turns_le (h : ReadWithin depth e) (hdepth : 0 < depth) :
    e.turns ≤ (BinaryOp.topLevel + 1) * depth := by
  rcases h with h | ⟨E, i, hn, rfl⟩
  · cases e with
    | omitted m => exact Nat.mul_pos (Nat.succ_pos _) hdepth
    | _ => cases h
  · have hturns := E.turnsWithin i
    simp only [ExprRule.TurnsWithin, BinaryOp.topLevel] at hturns ⊢
    omega

end ReadWithin

theorem ExprDerivation.readWithin (E : ExpressionDerivation) (i : Nat) {depth : Nat}
    (h : E.nesting ≤ depth) : ReadWithin depth (E.tree i) :=
  .inr ⟨E, i, h, rfl⟩

theorem Clause.readWithin (C : Clause) (p : Location) (i : Nat) {depth : Nat}
    (h : C.nesting ≤ depth) : ReadWithin depth (C.tree p i) := by
  cases C with
  | omitted => exact .inl rfl
  | given value => exact value.readWithin i h

theorem Initializer.readWithin (I : Initializer) (i : Nat) :
    ∀ e ∈ (I.tree i).toList, ReadWithin I.nesting e := by
  cases I with
  | absent => exact nofun
  | given equal value =>
    intro e he
    obtain rfl := List.mem_singleton.mp he
    exact value.readWithin i (Nat.le_refl _)

theorem Declarators.readWithin (type : BaseType) : ∀ (D : Declarators) (i : Nat),
    ∀ e ∈ Stmt.allExprs (D.tree type i), ReadWithin D.nesting e
  | last _ init, i => by
    intro e he
    simp only [tree, Stmt.allExprs, Stmt.exprs, List.append_nil] at he
    exact init.readWithin i e he
  | more _ init _ rest, i => by
    intro e he
    simp only [tree, Stmt.allExprs, Stmt.exprs, List.mem_append] at he
    rcases he with he | he
    · exact (init.readWithin i e he).mono (Nat.le_max_left _ _)
    · exact (rest.readWithin type _ e he).mono (Nat.le_max_right _ _)

namespace StmtRule

def exprs : (r : StmtRule) → r.Result → List Expr
  | statement, s | command, s => s.exprs
  | items, ss | declaration, ss | program, ss => Stmt.allExprs ss

end StmtRule

theorem exprs_declared (p : Location) (ss : List Stmt) :
    (declared p ss).exprs = Stmt.allExprs ss := by
  unfold declared
  split
  · simp only [Stmt.allExprs, List.append_nil]
  · simp only [Stmt.exprs]

theorem StmtDerivation.readWithin : ∀ {r : StmtRule} (D : StmtDerivation r) (i : Nat),
    ∀ e ∈ r.exprs (D.tree i), ReadWithin D.nesting e
  | _, declared declaration, i, e, he => by
    have he : e ∈ Stmt.allExprs (declaration.tree i) := exprs_declared _ _ ▸ he
    exact (declaration.readWithin i e he).mono (Nat.le_succ _)
  | _, empty semicolon, i, e, he => by
    obtain rfl := List.mem_singleton.mp he
    exact .inl rfl
  | _, command inner, i, e, he => (inner.readWithin i e he).mono (Nat.le_succ _)
  | _, block left body right, i, e, he => body.readWithin i e he
  | _, branch word left condition right thenBody, i, e, he => by
    rcases List.mem_cons.mp he with rfl | he
    · exact condition.readWithin i (Nat.le_max_left _ _)
    · exact (thenBody.readWithin _ e he).mono (Nat.le_max_right _ _)
  | _, branchElse word left condition right thenBody elseWord elseBody, i, e, he => by
    simp only [StmtRule.exprs, tree, Stmt.exprs, List.mem_cons, List.mem_append] at he
    simp only [nesting]
    rcases he with rfl | he | he
    · exact condition.readWithin i (by omega)
    · exact (thenBody.readWithin _ e he).mono (by omega)
    · exact (elseBody.readWithin _ e he).mono (by omega)
  | _, whileLoop word left condition right body, i, e, he => by
    rcases List.mem_cons.mp he with rfl | he
    · exact condition.readWithin i (Nat.le_max_left _ _)
    · exact (body.readWithin _ e he).mono (Nat.le_max_right _ _)
  | _, forLoop word left init first condition second update right body, i, e, he => by
    simp only [StmtRule.exprs, tree, Stmt.exprs, List.mem_cons] at he
    simp only [nesting]
    rcases he with rfl | rfl | rfl | he
    · exact init.readWithin _ i (by omega)
    · exact condition.readWithin _ _ (by omega)
    · exact update.readWithin _ _ (by omega)
    · exact (body.readWithin _ e he).mono (by omega)
  | _, ret word value semicolon, i, e, he => by
    obtain rfl := List.mem_singleton.mp he
    exact value.readWithin _ i (Nat.le_refl _)
  | _, print word left value right semicolon, i, e, he => by
    obtain rfl := List.mem_singleton.mp he
    exact value.readWithin i (Nat.le_refl _)
  | _, expr value semicolon, i, e, he => by
    obtain rfl := List.mem_singleton.mp he
    exact value.readWithin i (Nat.le_refl _)
  | _, nil, i, e, he => absurd he List.not_mem_nil
  | _, cons (declared declaration) rest, i, e, he => by
    simp only [StmtRule.exprs, tree, Stmt.allExprs_append, List.mem_append] at he
    rcases he with he | he
    · exact (declaration.readWithin i e he).mono (Nat.le_max_left _ _)
    · exact (rest.readWithin _ e he).mono (Nat.le_max_right _ _)
  | _, cons (empty _) rest, i, e, he => rest.readWithin i e he
  | _, cons (command inner) rest, i, e, he => by
    simp only [StmtRule.exprs, tree, Stmt.allExprs, List.mem_append] at he
    simp only [nesting]
    rcases he with he | he
    · exact (inner.readWithin i e he).mono (by omega)
    · exact (rest.readWithin _ e he).mono (by omega)
  | _, function type name left params right leftBrace body rightBrace, i, e, he => by
    simp only [StmtRule.exprs, tree, Stmt.allExprs, Stmt.exprs, List.append_nil] at he
    exact (body.readWithin i e he).mono (Nat.le_succ _)
  | _, vars type names semicolon, i, e, he => names.readWithin type.type i e he
  | _, done, i, e, he => absurd he List.not_mem_nil
  | _, next first rest, i, e, he => by
    simp only [StmtRule.exprs, tree, Stmt.allExprs_append, List.mem_append] at he
    rcases he with he | he
    · exact (first.readWithin i e he).mono (Nat.le_max_left _ _)
    · exact (rest.readWithin _ e he).mono (Nat.le_max_right _ _)

/-! ## Runs without a bound -/

section Sums

variable (p : Location)

/-- The sum `1 + 1 + … + 1` with `n` signs. -/
def onesSum : Nat → ExprDerivation (.operation 2)
  | 0 => .tighter (.tighter (.number ⟨⟨.number, "1", p⟩, rfl⟩))
  | n + 1 => .binary (onesSum n) .add rfl ⟨⟨.plus, "+", p⟩, rfl⟩
      (.tighter (.number ⟨⟨.number, "1", p⟩, rfl⟩))

/-- The program `int x = 1 + 1 + … + 1;`. -/
def onesProgram (n : Nat) : StmtDerivation .program :=
  .next (.vars ⟨.int, ⟨.intWord, "int", p⟩, rfl⟩
    (.last ⟨⟨.name, "x", p⟩, rfl⟩ (.given ⟨⟨.equal, "=", p⟩, rfl⟩
      (.tighter (.tighter (.tighter (.tighter (onesSum p n)))))))
    ⟨⟨.semicolon, ";", p⟩, rfl⟩) .done

theorem onesSum_isOpen (n : Nat) : (onesSum p n).isOpen = false := by
  cases n <;> rfl

theorem onesSum_settled (n : Nat) : (onesSum p n).Settled := by
  induction n with
  | zero => trivial
  | succ n ih => exact ⟨ih, onesSum_isOpen p n, trivial⟩

theorem onesSum_nesting (n : Nat) : (onesSum p n).nesting = 1 := by
  induction n with
  | zero => rfl
  | succ n ih =>
    simp only [onesSum, ExprDerivation.nesting, ih]
    rfl

theorem height_onesSum (n i : Nat) : ((onesSum p n).tree i).height = n + 1 := by
  induction n with
  | zero => rfl
  | succ n ih =>
    simp only [onesSum, ExprDerivation.tree, Expr.height, ih]
    omega

end Sums

end Grammar

namespace Program

open Grammar

/-- However long a sum is, it is read with a single nesting level. -/
theorem ofTokens_onesProgram (p : Location) (n : Nat) :
    ofTokens (onesProgram p n).tokens = .ok ((onesProgram p n).tree 0) := by
  have hnesting : (onesProgram p n).nesting = 1 := by
    simp only [onesProgram, StmtDerivation.nesting, Declarators.nesting, Initializer.nesting,
      ExprDerivation.nesting, onesSum_nesting]
    rfl
  refine ofTokens_eq_ok_iff.mpr ⟨onesProgram p n, rfl, ⟨onesSum_settled p n, trivial⟩, ?_, rfl⟩
  rw [hnesting]
  decide

/-- Every expression of a program that is read is at most as high as its longest run of left
operands allows, when there are no more nesting levels than can be opened. -/
theorem height_le_of_ofTokens {ts : List Token} {p : Program} (h : ofTokens ts = .ok p) :
    ∀ e ∈ exprs p,
      e.height ≤ (BinaryOp.topLevel + 1) * maxNesting * (e.longestRun + 1) := by
  obtain ⟨D, _, _, hnesting, rfl⟩ := ofTokens_eq_ok_iff.mp h
  intro e he
  have hread : ReadWithin maxNesting e := (D.readWithin 0 e he).mono hnesting
  have hturns := hread.turns_le (by decide)
  exact Nat.le_trans e.height_le_turns_mul (Nat.mul_le_mul_right _ hturns)

theorem height_le_of_ofTokens_sum :
    let D := onesProgram .first 2
    ofTokens D.tokens = .ok (D.tree 0) ∧ (exprs (D.tree 0)).map Expr.height = [3] ∧
      ∀ e ∈ exprs (D.tree 0),
        e.height ≤ (BinaryOp.topLevel + 1) * maxNesting * (e.longestRun + 1) :=
  ⟨ofTokens_onesProgram .first 2, rfl, height_le_of_ofTokens (ofTokens_onesProgram .first 2)⟩

/-- The limit on nesting levels alone is no bound on how high expressions are. -/
theorem not_exists_height_bound :
    ¬ ∃ bound : Nat, ∀ ts p, ofTokens ts = .ok p → ∀ e ∈ exprs p, e.height ≤ bound := by
  rintro ⟨bound, h⟩
  have hle := h _ _ (ofTokens_onesProgram .first bound) _ List.mem_cons_self
  simp only [ExprDerivation.tree, height_onesSum] at hle
  omega

end Program
end MiniCheck
