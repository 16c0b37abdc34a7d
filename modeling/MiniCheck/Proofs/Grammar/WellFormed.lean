import MiniCheck.Proofs.Grammar.ProgramReading
import MiniCheck.Proofs.Tree.WellFormed

/-!
# Programs that are read are well-formed

Whatever the tokens are, the tree of a settled derivation is well-formed.
-/

namespace MiniCheck
namespace Grammar

namespace ExprRule

/-- Nothing is omitted of what is derived. -/
def Complete : (r : ExprRule) → r.Result → Prop
  | operation _, e => e.Complete
  | arguments, es => Expr.AllComplete es

end ExprRule

theorem ExprDerivation.complete : ∀ {r : ExprRule} (D : ExprDerivation r) (i : Nat),
    r.Complete (D.tree i)
  | _, signed _ _ operand, i => operand.complete i
  | _, parenthesized _ inner _, i => inner.complete i
  | _, number _, _ => trivial
  | _, assign _ _ value, i => value.complete i
  | _, callEmpty _ _ _, _ => trivial
  | _, call _ _ args _, i => args.complete i
  | _, var _, _ => trivial
  | _, tighter inner, i => inner.complete i
  | _, binary left _ _ _ right, i => ⟨left.complete i, right.complete _⟩
  | _, last arg, i => ⟨arg.complete i, trivial⟩
  | _, more arg _ rest, i => ⟨arg.complete i, rest.complete _⟩

theorem Clause.isClause (C : Clause) (p : Location) (i : Nat) : (C.tree p i).IsClause := by
  cases C with
  | omitted => exact .inl rfl
  | given value => exact .inr (value.complete i)

theorem Initializer.complete (I : Initializer) (i : Nat) : ∀ e ∈ I.tree i, e.Complete := by
  cases I with
  | absent => exact nofun
  | given equal value =>
    intro e he
    cases he
    exact value.complete i

theorem Declarators.wellFormed (type : BaseType) : ∀ (D : Declarators) (i : Nat),
    Program.WellFormed (D.tree type i)
  | last _ init, i => fun s hs => by
    cases List.mem_singleton.mp hs
    exact ⟨rfl, init.complete i⟩
  | more _ init _ rest, i => fun s hs => by
    rcases List.mem_cons.mp hs with rfl | hs
    · exact ⟨rfl, init.complete i⟩
    · exact rest.wellFormed type _ s hs

namespace StmtRule

/-- What is derived is well-formed where it stands. A statement dangles if its derivation
does. -/
def WellFormed : (r : StmtRule) → Bool → r.Result → Prop
  | statement, dangles, s => s.WellFormed ∧ s.dangles = dangles
  | command, dangles, s => s.WellFormed ∧ s.dangles = dangles ∧ s.isEmpty = false
  | items, _, ss => Stmt.AllWellFormed ss
  | declaration, _, ss | program, _, ss => Program.WellFormed ss

end StmtRule

/-- Where one tree has to stand for them, declarations are well-formed too. -/
theorem declared_wellFormed {ss : List Stmt} (h : Program.WellFormed ss) (p : Location) :
    (declared p ss).WellFormed ∧ (declared p ss).dangles = false := by
  have hblock := h.allWellFormed
  cases ss with
  | nil => exact ⟨hblock, rfl⟩
  | cons s rest =>
    cases rest with
    | nil =>
      obtain ⟨hdeclaration, hs⟩ := h s List.mem_cons_self
      exact ⟨hs, Stmt.dangles_of_isDeclaration hdeclaration⟩
    | cons s' rest => exact ⟨hblock, rfl⟩

theorem StmtDerivation.wellFormed : ∀ {r : StmtRule} (D : StmtDerivation r) (i : Nat), D.Settled →
    r.WellFormed D.dangles (D.tree i)
  | _, declared declaration, i, hs => declared_wellFormed (declaration.wellFormed i hs) _
  | _, empty _, _, _ => ⟨.inl rfl, rfl⟩
  | _, command inner, i, hs => by
    obtain ⟨hinner, hdangles, _⟩ := inner.wellFormed i hs
    exact ⟨hinner, hdangles⟩
  | _, block _ body _, i, hs => ⟨body.wellFormed i hs, rfl, rfl⟩
  | _, branch _ _ condition _ thenBody, i, hs =>
    ⟨⟨condition.complete i, (thenBody.wellFormed _ hs.2).1⟩, rfl, rfl⟩
  | _, branchElse _ _ condition _ thenBody _ elseBody, i, hs => by
    obtain ⟨hcondition, hthen, hdangles, helse⟩ := hs
    obtain ⟨hthen, hthen'⟩ := thenBody.wellFormed (i + condition.size) hthen
    obtain ⟨helse, helse'⟩ := elseBody.wellFormed (i + condition.size + thenBody.size) helse
    exact ⟨⟨condition.complete i, hthen, hthen'.trans hdangles, helse⟩, helse', rfl⟩
  | _, whileLoop _ _ condition _ body, i, hs => by
    obtain ⟨hbody, hdangles⟩ := body.wellFormed (i + condition.size) hs.2
    exact ⟨⟨condition.complete i, hbody⟩, hdangles, rfl⟩
  | _, forLoop _ _ init _ condition _ update _ body, i, hs => by
    obtain ⟨hbody, hdangles⟩ :=
      body.wellFormed (i + init.size + condition.size + update.size) hs.2.2.2
    exact ⟨⟨init.isClause _ i, condition.isClause _ _, update.isClause _ _, hbody⟩, hdangles, rfl⟩
  | _, ret _ value _, i, _ => ⟨value.isClause _ i, rfl, rfl⟩
  | _, print _ _ value _ _, i, _ => ⟨value.complete i, rfl, rfl⟩
  | _, expr value _, i, _ =>
    ⟨.inr (value.complete i), rfl, Expr.isOmitted_of_complete (value.complete i)⟩
  | _, nil, _, _ => trivial
  | _, cons (declared declaration) rest, i, hs =>
    Stmt.allWellFormed_append (declaration.wellFormed i hs.1).allWellFormed
      (rest.wellFormed _ hs.2)
  | _, cons (empty _) rest, i, hs => rest.wellFormed i hs.2
  | _, cons (command inner) rest, i, hs => by
    obtain ⟨hinner, _, hempty⟩ := inner.wellFormed i hs.1
    exact ⟨hempty, hinner, rest.wellFormed _ hs.2⟩
  | _, function _ _ _ _ _ _ body _, i, hs => fun s h => by
    cases List.mem_singleton.mp h
    exact ⟨rfl, body.wellFormed i hs⟩
  | _, vars type names _, i, _ => names.wellFormed type.type i
  | _, done, _, _ => fun _ h => absurd h List.not_mem_nil
  | _, next first rest, i, hs => (first.wellFormed i hs.1).append (rest.wellFormed _ hs.2)

end Grammar

/-- Every program that is read is well-formed. -/
theorem Program.wellFormed_of_ofTokens {ts : List Token} {p : Program} (h : ofTokens ts = .ok p) :
    p.WellFormed := by
  obtain ⟨D, _, hsettled, _, rfl⟩ := ofTokens_eq_ok_iff.mp h
  exact D.wellFormed 0 hsettled

end MiniCheck
