import MiniCheck.Proofs.Grammar.Numbering
import MiniCheck.Proofs.Grammar.ProgramRelabelling
import MiniCheck.Proofs.Token.Seams

/-!
# One program behind another

The last token of a program is a semicolon or a closing brace. Neither is read together with
what follows it, and no reader of declarations looks behind it, so two programs of which each
is read alone are read as one: the second one only has later lines and greater numbers.
-/

namespace MiniCheck

theorem Relabelling.counts_moved (n l : Nat) : (moved n l).Counts :=
  fun i => Nat.add_right_comm i 1 n

namespace Grammar
namespace StmtDerivation

/-- The declarations of one program behind those of another. -/
def append : StmtDerivation .program → StmtDerivation .program → StmtDerivation .program
  | done, E => E
  | next first rest, E => .next first (rest.append E)

theorem tokens_append : ∀ D E : StmtDerivation .program,
    (D.append E).tokens = D.tokens ++ E.tokens
  | done, E => by rw [append, tokens, List.nil_append]
  | next first rest, E => by
    rw [append, tokens, tokens, tokens_append rest E, List.append_assoc]

theorem Settled.append : ∀ {D E : StmtDerivation .program}, D.Settled → E.Settled →
    (D.append E).Settled
  | done, E, _, hE => by
    rw [StmtDerivation.append]
    exact hE
  | next first rest, E, hD, hE => by
    rw [StmtDerivation.append]
    exact ⟨hD.1, hD.2.append hE⟩

theorem nesting_append : ∀ D E : StmtDerivation .program,
    (D.append E).nesting = max D.nesting E.nesting
  | done, E => by rw [append, nesting, Nat.zero_max]
  | next first rest, E => by
    rw [append, nesting, nesting, nesting_append rest E, Nat.max_assoc]

theorem tree_append : ∀ (D E : StmtDerivation .program) (i : Nat),
    (D.append E).tree i = D.tree i ++ E.tree (i + D.size)
  | done, E, i => by rw [append, tree, size, List.nil_append, Nat.add_zero]
  | next first rest, E, i => by
    rw [append, tree, tree, size, tree_append rest E, ← Nat.add_assoc]
    exact (List.append_assoc _ _ _).symm

/-- The kinds that no declaration goes on behind. -/
def ends : List Token.Kind := [.semicolon, .rightBrace]

theorem exists_last_of_declaration (D : StmtDerivation .declaration) :
    ∃ front t, D.tokens = front ++ [t] ∧ t.kind ∈ ends := by
  cases D with
  | function type name left params right leftBrace body rightBrace =>
    refine ⟨type.token.val :: name.val :: left.val :: (parameterTokens params ++ right.val ::
      leftBrace.val :: body.tokens), rightBrace.val, ?_, ?_⟩
    · simp only [tokens, List.cons_append, List.append_assoc]
    · rw [rightBrace.property]
      decide
  | vars type names semicolon =>
    refine ⟨type.token.val :: names.tokens, semicolon.val, rfl, ?_⟩
    rw [semicolon.property]
    decide

theorem last_of_program : ∀ D : StmtDerivation .program, ∀ t ∈ D.tokens.getLast?, t.kind ∈ ends
  | done => fun t ht => nomatch ht
  | next first rest => by
    intro t ht
    rw [tokens, List.getLast?_append, Option.mem_def, Option.or_eq_some_iff] at ht
    rcases ht with ht | ⟨_, ht⟩
    · exact last_of_program rest t ht
    · obtain ⟨front, last, htokens, hlast⟩ := first.exists_last_of_declaration
      rw [htokens, List.getLast?_concat, Option.some.injEq] at ht
      exact ht ▸ hlast

end StmtDerivation
end Grammar

namespace Program

open Grammar

variable {s t : String} {ts us : List Token} {p q : Program}

/-- Elsewhere, and with other numbers, the same tokens are derived. -/
theorem exists_derivation_moved (hq : ofTokens us = .ok q) (n l : Nat) :
    ∃ E : StmtDerivation .program, E.tokens = relabel (.moved n l) us ∧ E.Settled ∧
      E.nesting ≤ maxNesting ∧ E.tree n = relabel (.moved n l) q := by
  have hmoved := Mirrors.program (Relabelling.counts_moved n l) (.ofTokens us)
  unfold ofTokens at hq
  cases hrun : Grammar.program (.ofTokens us) with
  | error m c =>
    rw [hrun] at hq
    cases hq
  | ok nodes c =>
    rw [hrun] at hq hmoved
    cases hq
    obtain ⟨E, ⟨htokens, hs, hn⟩, htree, _⟩ := program_sound hmoved
    have hnext : (relabel (.moved n l) (Cursor.ofTokens us)).nextId = n := Nat.zero_add n
    rw [hnext] at htree
    exact ⟨E, htokens, hs, hn, htree⟩

theorem ofTokens_append (hp : ofTokens ts = .ok p) (hq : ofTokens us = .ok q) (l : Nat) :
    ofTokens (ts ++ relabel (.moved (ids p).length l) us) =
      .ok (p ++ relabel (.moved (ids p).length l) q) := by
  -- The derivations of both are appended, the second one with its numbers moved behind the first.
  obtain ⟨D, rfl, hs, hn, rfl⟩ := ofTokens_eq_ok_iff.mp hp
  have hsize : (ids (D.tree 0)).length = D.size := by
    have hids : ids (D.tree 0) = List.range' 0 D.size := D.ids_tree 0
    rw [hids, List.length_range']
  rw [hsize]
  obtain ⟨E, htokens, hs', hn', htree⟩ := exists_derivation_moved hq D.size l
  refine ofTokens_eq_ok_iff.mpr ⟨D.append E, ?_, hs.append hs', ?_, ?_⟩
  · rw [D.tokens_append, htokens]
  · rw [D.nesting_append]
    exact Nat.max_le.mpr ⟨hn, hn'⟩
  · rw [D.tree_append, Nat.zero_add, htree]

/-- Two texts of which each is read as a program, the first one not ending in an open block
comment, are read as one with a line feed between them. The tokens and the statements of the
second one follow those of the first, by one line more than the first has line feeds further
down, and with numbers that are greater by the number of expressions in the first. -/
theorem reads_concatenation (hopen : ¬ Trivia.OpenAtEnd s) (hs : Token.ofText s = .ok ts)
    (hp : ofTokens ts = .ok p) (ht : Token.ofText t = .ok us) (hq : ofTokens us = .ok q) :
    let r : Relabelling := .moved (ids p).length (1 + s.toList.count '\n')
    Token.ofText (s ++ "\n" ++ t) = .ok (ts ++ relabel r us) ∧
      ofTokens (ts ++ relabel r us) = .ok (p ++ relabel r q) := by
  refine ⟨Token.ofText_append_newline hopen hs ht (fun last hlast u _ => ?_) _,
    ofTokens_append hp hq _⟩
  obtain ⟨D, rfl, _⟩ := ofTokens_eq_ok_iff.mp hp
  have hends : ∀ k ∈ StmtDerivation.ends, k ∉ [.name, .number] ∧ k ∉ Token.Kind.extensible := by
    decide
  obtain ⟨hword, hmark⟩ := hends last.kind (D.last_of_program last hlast)
  exact ⟨fun hk => absurd hk hword, fun hk => absurd hk hmark⟩

/-- A comment to the end of the line is over where the second text begins. -/
theorem reads_concatenation_behind_comment :
    ∃ ts us p q, ¬ Trivia.OpenAtEnd "int a = 1; // one" ∧
      Token.ofText "int a = 1; // one" = .ok ts ∧ ofTokens ts = .ok p ∧
      Token.ofText "int b;\nint c = 2;" = .ok us ∧ ofTokens us = .ok q ∧
      Token.ofText ("int a = 1; // one" ++ "\n" ++ "int b;\nint c = 2;") =
        .ok (ts ++ relabel (.moved 1 1) us) ∧
      ofTokens (ts ++ relabel (.moved 1 1) us) = .ok (p ++ relabel (.moved 1 1) q) := by
  have hopen : ¬ Trivia.OpenAtEnd "int a = 1; // one" := nofun
  have hs : Token.ofText "int a = 1; // one" = .ok [⟨.intWord, "int", ⟨1, 1⟩⟩,
    ⟨.name, "a", ⟨1, 5⟩⟩, ⟨.equal, "=", ⟨1, 7⟩⟩, ⟨.number, "1", ⟨1, 9⟩⟩,
    ⟨.semicolon, ";", ⟨1, 10⟩⟩] := rfl
  have ht : Token.ofText "int b;\nint c = 2;" = .ok [⟨.intWord, "int", ⟨1, 1⟩⟩,
    ⟨.name, "b", ⟨1, 5⟩⟩, ⟨.semicolon, ";", ⟨1, 6⟩⟩, ⟨.intWord, "int", ⟨2, 1⟩⟩,
    ⟨.name, "c", ⟨2, 5⟩⟩, ⟨.equal, "=", ⟨2, 7⟩⟩, ⟨.number, "2", ⟨2, 9⟩⟩,
    ⟨.semicolon, ";", ⟨2, 10⟩⟩] := rfl
  exact ⟨_, _, _, _, hopen, hs, rfl, ht, rfl, reads_concatenation hopen hs rfl ht rfl⟩

end Program
end MiniCheck
