import MiniCheck.Proofs.Grammar.ProgramReading
import MiniCheck.Proofs.Tree.Numbering

/-!
# Expressions are numbered as they are read

The expressions of a program get consecutive numbers, each a greater one than those inside it.
-/

namespace MiniCheck
namespace Grammar

open Grammar.Parser

namespace ExprRule

def ids : (r : ExprRule) → r.Result → List Nat
  | operation _, e => e.ids
  | arguments, es => Expr.allIds es

end ExprRule

theorem ExprDerivation.ids_tree : ∀ {r : ExprRule} (D : ExprDerivation r) (i : Nat),
    r.ids (D.tree i) = List.range' i D.size
  | _, signed op sign operand, i => by
    have h : (operand.tree i).ids = _ := operand.ids_tree i
    simp only [ExprRule.ids, tree, size, Expr.ids, h, List.range'_1_concat]
  | _, parenthesized left inner right, i => inner.ids_tree i
  | _, number token, i => by simp only [ExprRule.ids, tree, size, Expr.ids, List.range'_one]
  | _, assign name equal value, i => by
    have h : (value.tree i).ids = _ := value.ids_tree i
    simp only [ExprRule.ids, tree, size, Expr.ids, h, List.range'_1_concat]
  | _, callEmpty name left right, i => by
    simp only [ExprRule.ids, tree, size, Expr.ids, Expr.allIds, List.nil_append, List.range'_one]
  | _, call name left args right, i => by
    have h : Expr.allIds (args.tree i) = _ := args.ids_tree i
    simp only [ExprRule.ids, tree, size, Expr.ids, h, List.range'_1_concat]
  | _, var name, i => by simp only [ExprRule.ids, tree, size, Expr.ids, List.range'_one]
  | _, tighter inner, i => inner.ids_tree i
  | _, binary left op level sign right, i => by
    have hleft : (left.tree i).ids = _ := left.ids_tree i
    have hright : (right.tree (i + left.size)).ids = _ := right.ids_tree (i + left.size)
    simp only [ExprRule.ids, tree, size, Expr.ids, hleft, hright, List.range'_append_1]
    rw [List.range'_1_concat, Nat.add_assoc]
  | _, last arg, i => by
    have h : (arg.tree i).ids = _ := arg.ids_tree i
    simp only [ExprRule.ids, tree, size, Expr.allIds, h, List.append_nil]
  | _, more arg comma rest, i => by
    have harg : (arg.tree i).ids = _ := arg.ids_tree i
    have hrest : Expr.allIds (rest.tree (i + arg.size)) = _ := rest.ids_tree (i + arg.size)
    simp only [ExprRule.ids, tree, size, Expr.allIds, harg, hrest, List.range'_append_1]

theorem Clause.ids_tree (C : Clause) (p : Location) (i : Nat) :
    (C.tree p i).ids = List.range' i C.size := by
  cases C with
  | omitted => simp only [tree, size, Expr.ids, List.range'_one]
  | given value => exact value.ids_tree i

/-- A declared variable holds what its initializer does. -/
theorem Initializer.ids_tree (I : Initializer) (name : String) (type : BaseType) (p : Location)
    (i : Nat) :
    (Stmt.declareVar name type (I.tree i) p).idsBy Expr.ids = List.range' i I.size := by
  cases I with
  | absent => rfl
  | given equal value => exact value.ids_tree i

theorem Declarators.ids_tree (type : BaseType) : ∀ (D : Declarators) (i : Nat),
    Stmt.allIdsBy Expr.ids (D.tree type i) = List.range' i D.size
  | last name init, i => by
    have h := init.ids_tree name.val.lexeme type name.val.location i
    simp only [tree, size, Stmt.allIdsBy, h, List.append_nil]
  | more name init comma rest, i => by
    have h := init.ids_tree name.val.lexeme type name.val.location i
    have hrest := rest.ids_tree type (i + init.size)
    simp only [tree, size, Stmt.allIdsBy, h, hrest, List.range'_append_1]

namespace StmtRule

def ids : (r : StmtRule) → r.Result → List Nat
  | statement, s | command, s => s.idsBy Expr.ids
  | items, ss | declaration, ss | program, ss => Stmt.allIdsBy Expr.ids ss

end StmtRule

theorem ids_declared (p : Location) (ss : List Stmt) :
    (declared p ss).idsBy Expr.ids = Stmt.allIdsBy Expr.ids ss := by
  unfold declared
  split
  · simp only [Stmt.allIdsBy, List.append_nil]
  · simp only [Stmt.idsBy]

theorem StmtDerivation.ids_tree : ∀ {r : StmtRule} (D : StmtDerivation r) (i : Nat),
    r.ids (D.tree i) = List.range' i D.size
  | _, declared declaration, i => (ids_declared _ _).trans (declaration.ids_tree i)
  | _, empty semicolon, i => by
    simp only [StmtRule.ids, tree, size, Stmt.idsBy, Expr.ids, List.range'_one]
  | _, command inner, i => inner.ids_tree i
  | _, block left body right, i => body.ids_tree i
  | _, branch word left condition right thenBody, i => by
    have hcondition : (condition.tree i).ids = _ := condition.ids_tree i
    have hthen : (thenBody.tree (i + condition.size)).idsBy Expr.ids = _ := thenBody.ids_tree _
    simp only [StmtRule.ids, tree, size, Stmt.idsBy, hcondition, hthen, List.range'_append_1]
  | _, branchElse word left condition right thenBody elseWord elseBody, i => by
    have hcondition : (condition.tree i).ids = _ := condition.ids_tree i
    have hthen : (thenBody.tree (i + condition.size)).idsBy Expr.ids = _ := thenBody.ids_tree _
    have helse : (elseBody.tree (i + condition.size + thenBody.size)).idsBy Expr.ids = _ :=
      elseBody.ids_tree _
    simp only [StmtRule.ids, tree, size, Stmt.idsBy, hcondition, hthen, helse,
      List.range'_append_1]
    rw [Nat.add_assoc i, List.range'_append_1]
  | _, whileLoop word left condition right body, i => by
    have hcondition : (condition.tree i).ids = _ := condition.ids_tree i
    have hbody : (body.tree (i + condition.size)).idsBy Expr.ids = _ := body.ids_tree _
    simp only [StmtRule.ids, tree, size, Stmt.idsBy, hcondition, hbody, List.range'_append_1]
  | _, forLoop word left init first condition second update right body, i => by
    have hbody : (body.tree (i + init.size + condition.size + update.size)).idsBy Expr.ids = _ :=
      body.ids_tree _
    simp only [StmtRule.ids, tree, size, Stmt.idsBy, init.ids_tree, condition.ids_tree,
      update.ids_tree, hbody, List.range'_append_1]
    rw [Nat.add_assoc i, List.range'_append_1, Nat.add_assoc i, List.range'_append_1]
  | _, ret word value semicolon, i => value.ids_tree _ i
  | _, print word left value right semicolon, i => value.ids_tree i
  | _, expr value semicolon, i => value.ids_tree i
  | _, nil, _ => rfl
  | _, cons (declared declaration) rest, i => by
    have hdeclaration : Stmt.allIdsBy Expr.ids (declaration.tree i) = _ := declaration.ids_tree i
    have hrest : Stmt.allIdsBy Expr.ids (rest.tree (i + declaration.size)) = _ := rest.ids_tree _
    simp only [StmtRule.ids, tree, size, Stmt.allIdsBy_append, hdeclaration, hrest,
      List.range'_append_1]
  | _, cons (empty _) rest, i => rest.ids_tree i
  | _, cons (command inner) rest, i => by
    have hinner : (inner.tree i).idsBy Expr.ids = _ := inner.ids_tree i
    have hrest : Stmt.allIdsBy Expr.ids (rest.tree (i + inner.size)) = _ := rest.ids_tree _
    simp only [StmtRule.ids, tree, size, Stmt.allIdsBy, hinner, hrest, List.range'_append_1]
  | _, function type name left params right leftBrace body rightBrace, i => by
    have hbody : Stmt.allIdsBy Expr.ids (body.tree i) = _ := body.ids_tree i
    simp only [StmtRule.ids, tree, size, Stmt.allIdsBy, Stmt.idsBy, hbody, List.append_nil]
  | _, vars type names semicolon, i => names.ids_tree type.type i
  | _, done, _ => rfl
  | _, next first rest, i => by
    have hfirst : Stmt.allIdsBy Expr.ids (first.tree i) = _ := first.ids_tree i
    have hrest : Stmt.allIdsBy Expr.ids (rest.tree (i + first.size)) = _ := rest.ids_tree _
    simp only [StmtRule.ids, tree, size, Stmt.allIdsBy_append, hfirst, hrest, List.range'_append_1]

/-- A program that is read has, in the order in which its expressions are read, the numbers from
the counter on, and leaves the counter right behind them. -/
theorem ids_of_program {c d : Cursor} {p : Program} (h : program c = .ok p d) :
    p.ids = List.range' c.nextId p.ids.length ∧ d.nextId = c.nextId + p.ids.length := by
  obtain ⟨D, _, rfl, hnext⟩ := Program.program_sound h
  have hids : Program.ids (D.tree c.nextId) = _ := D.ids_tree c.nextId
  rw [hids, List.length_range']
  exact ⟨rfl, hnext⟩

end Grammar
end MiniCheck
