import MiniCheck.Proofs.Grammar.StmtDerivation

/-!
# Settling derivations

Whatever can be derived has a settled derivation: an operator behind the right side
of an assignment is moved into it, and an `else` behind the body of an `if` is given
to the last `if` in there that has none.
-/

namespace MiniCheck
namespace Grammar

namespace ExprDerivation

/-- An operator with its right operand can be taken in by an operation of its level or a
looser one, and by any operation that ends in the right side of an assignment. -/
theorem exists_settled_append {k : Nat} (op : BinaryOp) (level : op.level = k + 1)
    (sign : Token.Of op.sign) (R : ExprDerivation (.operation k)) (hR : R.Settled) :
    ∀ {m : Nat} (D : ExprDerivation (.operation m)), D.Settled → D.isOpen = true ∨ op.level ≤ m →
      ∃ E : ExprDerivation (.operation m), E.tokens = D.tokens ++ sign.val :: R.tokens ∧ E.Settled
  | _, signed u s operand, hs, h => by
    obtain ⟨E, htokens, hE⟩ := exists_settled_append op level sign R hR operand hs h
    exact ⟨signed u s E, by simp [tokens, htokens], hE⟩
  | _, assign name equal value, hs, _ => by
    obtain ⟨E, htokens, hE⟩ :=
      exists_settled_append op level sign R hR value hs (.inr op.level_le_topLevel)
    exact ⟨assign name equal E, by simp [tokens, htokens], hE⟩
  | n + 1, tighter inner, hs, h => by
    by_cases hinner : inner.isOpen = true ∨ op.level ≤ n
    · obtain ⟨E, htokens, hE⟩ := exists_settled_append op level sign R hR inner hs hinner
      exact ⟨tighter E, htokens, hE⟩
    · obtain ⟨hclosed, hlevel⟩ := not_or.mp hinner
      rcases h with hopen | hle
      · exact absurd hopen hclosed
      obtain rfl : k = n := by omega
      exact ⟨binary (tighter inner) op level sign R, rfl, hs, Bool.not_eq_true _ ▸ hclosed, hR⟩
  | n + 1, binary left other level' sign' right, hs, h => by
    by_cases hright : right.isOpen = true ∨ op.level ≤ n
    · obtain ⟨E, htokens, hE⟩ := exists_settled_append op level sign R hR right hs.2.2 hright
      exact ⟨binary left other level' sign' E, by simp [tokens, htokens], hs.1, hs.2.1, hE⟩
    · obtain ⟨hclosed, hlevel⟩ := not_or.mp hright
      rcases h with hopen | hle
      · exact absurd hopen hclosed
      obtain rfl : k = n := by omega
      exact ⟨binary (binary left other level' sign' right) op level sign R, rfl, hs,
        Bool.not_eq_true _ ▸ hclosed, hR⟩
  | _, parenthesized _ _ _, _, h | _, number _, _, h | _, callEmpty _ _ _, _, h
  | _, call _ _ _ _, _, h | _, var _, _, h => by
    rcases h with hopen | hle
    · exact Bool.noConfusion hopen
    · exact absurd op.level_pos (Nat.not_lt.mpr hle)

theorem exists_settled : ∀ {r : ExprRule} (D : ExprDerivation r),
    ∃ E : ExprDerivation r, E.tokens = D.tokens ∧ E.Settled
  | _, signed op sign operand => by
    obtain ⟨E, htokens, hE⟩ := exists_settled operand
    exact ⟨signed op sign E, by simp [tokens, htokens], hE⟩
  | _, parenthesized left inner right => by
    obtain ⟨E, htokens, hE⟩ := exists_settled inner
    exact ⟨parenthesized left E right, by simp [tokens, htokens], hE⟩
  | _, number token => ⟨number token, rfl, trivial⟩
  | _, assign name equal value => by
    obtain ⟨E, htokens, hE⟩ := exists_settled value
    exact ⟨assign name equal E, by simp [tokens, htokens], hE⟩
  | _, callEmpty name left right => ⟨callEmpty name left right, rfl, trivial⟩
  | _, call name left args right => by
    obtain ⟨E, htokens, hE⟩ := exists_settled args
    exact ⟨call name left E right, by simp [tokens, htokens], hE⟩
  | _, var name => ⟨var name, rfl, trivial⟩
  | _, tighter inner => by
    obtain ⟨E, htokens, hE⟩ := exists_settled inner
    exact ⟨tighter E, htokens, hE⟩
  | _, binary left op level sign right => by
    obtain ⟨L, hleft, hL⟩ := exists_settled left
    obtain ⟨R, hright, hR⟩ := exists_settled right
    obtain ⟨E, htokens, hE⟩ :=
      exists_settled_append op level sign R hR L hL (.inr (Nat.le_of_eq level))
    exact ⟨E, by simp [tokens, htokens, hleft, hright], hE⟩
  | _, last arg => by
    obtain ⟨E, htokens, hE⟩ := exists_settled arg
    exact ⟨last E, htokens, hE⟩
  | _, more arg comma rest => by
    obtain ⟨E, htokens, hE⟩ := exists_settled arg
    obtain ⟨R, hrest, hR⟩ := exists_settled rest
    exact ⟨more E comma R, by simp [tokens, htokens, hrest], hE, hR⟩

end ExprDerivation

theorem Initializer.exists_settled : ∀ I : Initializer,
    ∃ E : Initializer, E.tokens = I.tokens ∧ E.Settled
  | absent => ⟨absent, rfl, trivial⟩
  | given equal value => by
    obtain ⟨E, htokens, hE⟩ := value.exists_settled
    exact ⟨given equal E, by simp [tokens, htokens], hE⟩

theorem Declarators.exists_settled : ∀ D : Declarators,
    ∃ E : Declarators, E.tokens = D.tokens ∧ E.Settled
  | last name init => by
    obtain ⟨I, htokens, hI⟩ := init.exists_settled
    exact ⟨last name I, by simp [tokens, htokens], hI⟩
  | more name init comma rest => by
    obtain ⟨I, htokens, hI⟩ := init.exists_settled
    obtain ⟨R, hrest, hR⟩ := rest.exists_settled
    exact ⟨more name I comma R, by simp [tokens, htokens, hrest], hI, hR⟩

theorem Clause.exists_settled : ∀ C : Clause, ∃ E : Clause, E.tokens = C.tokens ∧ E.Settled
  | omitted => ⟨omitted, rfl, trivial⟩
  | given value => by
    obtain ⟨E, htokens, hE⟩ := value.exists_settled
    exact ⟨given E, htokens, hE⟩

namespace StmtDerivation

/-- An `else` with its body can be taken in by any statement that dangles. -/
theorem exists_settled_else (word : Token.Of .elseWord) (E : StmtDerivation .statement)
    (hE : E.Settled) : ∀ {r : StmtRule} (D : StmtDerivation r), D.Settled → D.dangles = true →
      ∃ F : StmtDerivation r, F.tokens = D.tokens ++ word.val :: E.tokens ∧ F.Settled
  | _, command inner, hs, h => by
    obtain ⟨F, htokens, hF⟩ := exists_settled_else word E hE inner hs h
    exact ⟨command F, htokens, hF⟩
  | _, branch ifWord left condition right thenBody, hs, _ => by
    cases hthen : thenBody.dangles with
    | true =>
      obtain ⟨F, htokens, hF⟩ := exists_settled_else word E hE thenBody hs.2 hthen
      exact ⟨branch ifWord left condition right F, by simp [tokens, htokens], hs.1, hF⟩
    | false =>
      exact ⟨branchElse ifWord left condition right thenBody word E, by simp [tokens], hs.1, hs.2,
        hthen, hE⟩
  | _, branchElse ifWord left condition right thenBody elseWord elseBody, hs, h => by
    obtain ⟨F, htokens, hF⟩ := exists_settled_else word E hE elseBody hs.2.2.2 h
    exact ⟨branchElse ifWord left condition right thenBody elseWord F, by simp [tokens, htokens],
      hs.1, hs.2.1, hs.2.2.1, hF⟩
  | _, whileLoop whileWord left condition right body, hs, h => by
    obtain ⟨F, htokens, hF⟩ := exists_settled_else word E hE body hs.2 h
    exact ⟨whileLoop whileWord left condition right F, by simp [tokens, htokens], hs.1, hF⟩
  | _, forLoop forWord left init first condition second update right body, hs, h => by
    obtain ⟨F, htokens, hF⟩ := exists_settled_else word E hE body hs.2.2.2 h
    exact ⟨forLoop forWord left init first condition second update right F,
      by simp [tokens, htokens], hs.1, hs.2.1, hs.2.2.1, hF⟩
  | _, declared _, _, h | _, empty _, _, h | _, block _ _ _, _, h | _, ret _ _ _, _, h
  | _, print _ _ _ _ _, _, h | _, expr _ _, _, h | _, nil, _, h | _, cons _ _, _, h
  | _, function _ _ _ _ _ _ _ _, _, h | _, vars _ _ _, _, h | _, done, _, h
  | _, next _ _, _, h => Bool.noConfusion h

theorem exists_settled : ∀ {r : StmtRule} (D : StmtDerivation r),
    ∃ E : StmtDerivation r, E.tokens = D.tokens ∧ E.Settled
  | _, declared declaration => by
    obtain ⟨E, htokens, hE⟩ := exists_settled declaration
    exact ⟨declared E, htokens, hE⟩
  | _, empty semicolon => ⟨empty semicolon, rfl, trivial⟩
  | _, command inner => by
    obtain ⟨E, htokens, hE⟩ := exists_settled inner
    exact ⟨command E, htokens, hE⟩
  | _, block left body right => by
    obtain ⟨E, htokens, hE⟩ := exists_settled body
    exact ⟨block left E right, by simp [tokens, htokens], hE⟩
  | _, branch word left condition right thenBody => by
    obtain ⟨C, hcondition, hC⟩ := condition.exists_settled
    obtain ⟨T, hthen, hT⟩ := exists_settled thenBody
    exact ⟨branch word left C right T, by simp [tokens, hcondition, hthen], hC, hT⟩
  | _, branchElse word left condition right thenBody elseWord elseBody => by
    obtain ⟨C, hcondition, hC⟩ := condition.exists_settled
    obtain ⟨T, hthen, hT⟩ := exists_settled thenBody
    obtain ⟨E, helse, hE⟩ := exists_settled elseBody
    cases hdangles : T.dangles with
    | true =>
      obtain ⟨F, htokens, hF⟩ := exists_settled_else elseWord E hE T hT hdangles
      exact ⟨branch word left C right F, by simp [tokens, htokens, hcondition, hthen, helse], hC, hF⟩
    | false =>
      exact ⟨branchElse word left C right T elseWord E, by simp [tokens, hcondition, hthen, helse],
        hC, hT, hdangles, hE⟩
  | _, whileLoop word left condition right body => by
    obtain ⟨C, hcondition, hC⟩ := condition.exists_settled
    obtain ⟨B, hbody, hB⟩ := exists_settled body
    exact ⟨whileLoop word left C right B, by simp [tokens, hcondition, hbody], hC, hB⟩
  | _, forLoop word left init first condition second update right body => by
    obtain ⟨I, hinit, hI⟩ := init.exists_settled
    obtain ⟨C, hcondition, hC⟩ := condition.exists_settled
    obtain ⟨U, hupdate, hU⟩ := update.exists_settled
    obtain ⟨B, hbody, hB⟩ := exists_settled body
    exact ⟨forLoop word left I first C second U right B,
      by simp [tokens, hinit, hcondition, hupdate, hbody], hI, hC, hU, hB⟩
  | _, ret word value semicolon => by
    obtain ⟨V, hvalue, hV⟩ := value.exists_settled
    exact ⟨ret word V semicolon, by simp [tokens, hvalue], hV⟩
  | _, print word left value right semicolon => by
    obtain ⟨V, hvalue, hV⟩ := value.exists_settled
    exact ⟨print word left V right semicolon, by simp [tokens, hvalue], hV⟩
  | _, expr value semicolon => by
    obtain ⟨V, hvalue, hV⟩ := value.exists_settled
    exact ⟨expr V semicolon, by simp [tokens, hvalue], hV⟩
  | _, nil => ⟨nil, rfl, trivial⟩
  | _, cons first rest => by
    obtain ⟨F, hfirst, hF⟩ := exists_settled first
    obtain ⟨R, hrest, hR⟩ := exists_settled rest
    exact ⟨cons F R, by simp [tokens, hfirst, hrest], hF, hR⟩
  | _, function type name left params right leftBrace body rightBrace => by
    obtain ⟨B, hbody, hB⟩ := exists_settled body
    exact ⟨function type name left params right leftBrace B rightBrace, by simp [tokens, hbody], hB⟩
  | _, vars type names semicolon => by
    obtain ⟨N, hnames, hN⟩ := names.exists_settled
    exact ⟨vars type N semicolon, by simp [tokens, hnames], hN⟩
  | _, done => ⟨done, rfl, trivial⟩
  | _, next first rest => by
    obtain ⟨F, hfirst, hF⟩ := exists_settled first
    obtain ⟨R, hrest, hR⟩ := exists_settled rest
    exact ⟨next F R, by simp [tokens, hfirst, hrest], hF, hR⟩

end StmtDerivation
end Grammar
end MiniCheck
