import MiniCheck.Proofs.Grammar.Resolution
import MiniCheck.Proofs.Grammar.StmtUniqueness

/-!
# Reading programs

A list of tokens is a program exactly if it has a settled derivation that keeps to the
limit on nesting levels, and then its tree is the one of that derivation. Whatever can
be derived has exactly one settled derivation.
-/

namespace MiniCheck
namespace Grammar

open Token (Kind)
open Grammar.Parser

section Declarations

variable {depth : Nat} {declaration : Parser (List Stmt)} {ts r : List Token} {i : Nat}
  {f : Location} {d : Cursor}

theorem declarations_of_not_type (h : (headKind ts).isType = false) (bound : List Token) :
    declarations declaration bound ⟨ts, i, f⟩ = .ok [] ⟨ts, i, f⟩ := by
  cases bound with
  | nil => rfl
  | cons b bound =>
    have hk : (Cursor.kind ⟨ts, i, f⟩).isType = false := h
    simp only [declarations, bind_of_ok (peek_apply _), hk, Bool.false_eq_true, ↓reduceIte]
    rfl

theorem declarations_of_type (h : (headKind ts).isType = true) (b : Token) (bound : List Token) :
    declarations declaration (b :: bound) ⟨ts, i, f⟩ =
      (declaration >>= fun declared => declarations declaration bound >>= fun rest =>
        pure (declared ++ rest)) ⟨ts, i, f⟩ := by
  have hk : (Cursor.kind ⟨ts, i, f⟩).isType = true := h
  simp only [declarations, bind_of_ok (peek_apply _), hk, ↓reduceIte]

theorem declarations_sound (hdecl : ReadsDeclaration depth declaration) (bound : List Token)
    (hb : ts.length ≤ bound.length) {ss : List Stmt}
    (h : declarations declaration bound ⟨ts, i, f⟩ = .ok ss d) :
    ∃ (D : StmtDerivation .program) (r : List Token), ts = D.tokens ++ r ∧ D.Settled ∧
      D.nesting ≤ depth ∧ (headKind r).isType = false ∧ ss = D.tree i ∧
        d = ⟨r, i + D.size, f⟩ := by
  induction bound generalizing ts i ss d with
  | nil =>
    obtain rfl : ts = [] := List.length_eq_zero_iff.mp (Nat.le_zero.mp hb)
    cases h
    exact ⟨.done, [], rfl, trivial, Nat.zero_le _, rfl, rfl, rfl⟩
  | cons b bound ih =>
    cases htype : (headKind ts).isType with
    | false =>
      rw [declarations_of_not_type htype] at h
      cases h
      exact ⟨.done, ts, rfl, trivial, Nat.zero_le _, htype, rfl, rfl⟩
    | true =>
      rw [declarations_of_type htype] at h
      obtain ⟨declared, c, hdeclared, h⟩ := bind_eq_ok_iff.mp h
      obtain ⟨D, r, rfl, ⟨hs, hn⟩, rfl, rfl⟩ := hdecl.sound hdeclared
      obtain ⟨rest, c, hrest, h⟩ := bind_eq_ok_iff.mp h
      have hpos := List.length_pos_iff.mpr D.tokens_ne_nil_of_declaration
      obtain ⟨R, r, rfl, hsR, hnR, hr, rfl, rfl⟩ := ih
        (by simp only [List.length_append, List.length_cons] at hb; omega) hrest
      cases h
      refine ⟨.next D R, r, ?_, ⟨hs, hsR⟩, Nat.max_le.mpr ⟨hn, hnR⟩, hr, rfl, ?_⟩
      · simp [StmtDerivation.tokens]
      · simp [StmtDerivation.size, Nat.add_assoc]

theorem declarations_complete (hdecl : ReadsDeclaration depth declaration)
    (hr : (headKind r).isType = false) :
    ∀ (D : StmtDerivation .program) (bound : List Token) (i : Nat), D.Settled → D.nesting ≤ depth →
      (D.tokens ++ r).length ≤ bound.length →
      declarations declaration bound ⟨D.tokens ++ r, i, f⟩ = .ok (D.tree i) ⟨r, i + D.size, f⟩
  | .done, bound, i, _, _, _ => declarations_of_not_type hr bound
  | .next D R, bound, i, hs, hn, hb => by
    obtain ⟨hnD, hnR⟩ := Nat.max_le.mp hn
    have hpos := List.length_pos_iff.mpr D.tokens_ne_nil_of_declaration
    have hread := hdecl.complete (D := D) (r := R.tokens ++ r) ⟨hs.1, hnD⟩ i f
    simp only [StmtDerivation.tokens, List.append_assoc, List.length_append] at hb ⊢
    cases bound with
    | nil =>
      simp only [List.length_nil] at hb
      omega
    | cons b bound =>
      have hrest := declarations_complete hdecl hr R bound (i + D.size) hs.2 hnR
        (by simp only [List.length_append, List.length_cons] at hb ⊢; omega)
      rw [declarations_of_type (D.isType_headKind _), bind_of_ok hread, bind_of_ok hrest]
      simp [StmtDerivation.tree, StmtDerivation.size, Nat.add_assoc]

end Declarations

end Grammar

namespace Program

open Grammar Grammar.Parser

theorem program_apply (c : Cursor) :
    Grammar.program c =
      (declarations (declaration (expression maxNesting) (functionBody maxNesting)) c.rest >>=
        fun nodes => remaining >>= fun rest =>
          if rest.isEmpty then pure nodes
          else fail [.intWord, .floatWord, .voidWord, .eof] "at top level") c := by
  simp only [Grammar.program, bind_of_ok (remaining_apply _)]

/-- Wherever a reader begins to count, it answers the tree of a derivation. -/
theorem program_sound {c d : Cursor} {p : List Stmt} (h : Grammar.program c = .ok p d) :
    ∃ D : StmtDerivation .program, (D.tokens = c.rest ∧ D.Settled ∧ D.nesting ≤ maxNesting) ∧
      D.tree c.nextId = p ∧ d.nextId = c.nextId + D.size := by
  rw [program_apply] at h
  obtain ⟨nodes, e, hnodes, h⟩ := bind_eq_ok_iff.mp h
  obtain ⟨D, r, hts, hs, hn, _, rfl, rfl⟩ :=
    declarations_sound (reads_declarations_of_depth maxNesting) c.rest (Nat.le_refl _) hnodes
  rw [bind_of_ok (remaining_apply _)] at h
  cases r with
  | nil =>
    cases h
    exact ⟨D, ⟨by rw [hts, List.append_nil], hs, hn⟩, rfl, rfl⟩
  | cons t r => cases h

/-- The tokens that make up a program, and the tree they make up. -/
theorem ofTokens_eq_ok_iff {ts : List Token} {p : Program} :
    ofTokens ts = .ok p ↔
      ∃ D : StmtDerivation .program, D.tokens = ts ∧ D.Settled ∧ D.nesting ≤ maxNesting ∧
        D.tree 0 = p := by
  have hread := reads_declarations_of_depth maxNesting
  unfold ofTokens
  constructor
  · intro h
    split at h
    case h_2 => cases h
    case h_1 nodes d hrun =>
      cases h
      obtain ⟨D, ⟨hts, hs, hn⟩, htree, _⟩ := program_sound hrun
      exact ⟨D, hts, hs, hn, htree⟩
  · rintro ⟨D, rfl, hs, hn, rfl⟩
    have hrun := declarations_complete (r := []) (f := (Cursor.ofTokens D.tokens).finish) hread rfl D
      D.tokens 0 hs hn (by simp)
    rw [List.append_nil] at hrun
    have hbind := bind_of_ok hrun (g := fun nodes => remaining >>= fun rest =>
          if rest.isEmpty then pure nodes
          else fail [.intWord, .floatWord, .voidWord, .eof] "at top level")
    have hcursor : Cursor.ofTokens D.tokens =
        ⟨D.tokens, 0, (Cursor.ofTokens D.tokens).finish⟩ := rfl
    rw [program_apply, hcursor, hbind]
    rfl

/-- A list of tokens is read as a program exactly if its settled derivation, the only one
it has if it can be derived at all, keeps to the limit on nesting levels. The program is the
tree of that derivation, and no token of it marks the end. -/
theorem ofTokens_reads_derivations (ts : List Token) :
    (∀ p : Program, ofTokens ts = .ok p ↔
      ∃ D : StmtDerivation .program, D.tokens = ts ∧ D.Settled ∧ D.nesting ≤ maxNesting ∧
        D.tree 0 = p) ∧
    ((∃ D : StmtDerivation .program, D.tokens = ts) ↔
      ∃ D : StmtDerivation .program, (D.tokens = ts ∧ D.Settled) ∧
        ∀ E : StmtDerivation .program, E.tokens = ts ∧ E.Settled → E = D) ∧
    ((ofTokens ts).isOk = true → ∀ t ∈ ts, t.kind ≠ .eof) := by
  refine ⟨fun p => ofTokens_eq_ok_iff, ?_, ?_⟩
  · constructor
    · rintro ⟨D, hD⟩
      obtain ⟨E, htokens, hE⟩ := D.exists_settled
      refine ⟨E, ⟨htokens.trans hD, hE⟩, ?_⟩
      rintro F ⟨hF, hsettled⟩
      have heq : F.tokens ++ [] = E.tokens ++ [] := by rw [hF, htokens, hD]
      exact (StmtDerivation.unique F E [] [] heq hsettled hE rfl rfl).1
    · rintro ⟨D, ⟨hD, _⟩, _⟩
      exact ⟨D, hD⟩
  · intro hok
    cases hp : ofTokens ts with
    | error m =>
      rw [hp] at hok
      cases hok
    | ok p =>
      obtain ⟨D, rfl, _⟩ := ofTokens_eq_ok_iff.mp hp
      exact D.kind_ne_eof

/-- The right side of an assignment takes in the operator behind it. -/
theorem ofTokens_assign_sum (p : Location) :
    ofTokens [⟨.intWord, "int", p⟩, ⟨.name, "x", p⟩, ⟨.equal, "=", p⟩, ⟨.name, "y", p⟩,
        ⟨.equal, "=", p⟩, ⟨.number, "1", p⟩, ⟨.plus, "+", p⟩, ⟨.number, "2", p⟩,
        ⟨.semicolon, ";", p⟩] =
      .ok [.declareVar "x" .int (some (.assign "y" (.binary .add (.number "1" ⟨0, p⟩)
        (.number "2" ⟨1, p⟩) ⟨2, p⟩) ⟨3, p⟩)) p] := by
  let sum : ExpressionDerivation := .tighter <| .tighter <| .tighter <| .tighter <|
    .binary (.tighter (.tighter (.number ⟨⟨.number, "1", p⟩, rfl⟩))) .add rfl ⟨⟨.plus, "+", p⟩, rfl⟩
      (.tighter (.number ⟨⟨.number, "2", p⟩, rfl⟩))
  let value : ExpressionDerivation := .tighter <| .tighter <| .tighter <| .tighter <| .tighter <|
    .tighter <| .assign ⟨⟨.name, "y", p⟩, rfl⟩ ⟨⟨.equal, "=", p⟩, rfl⟩ sum
  refine ((ofTokens_reads_derivations _).1 _).mpr ⟨.next (.vars ⟨.int, ⟨.intWord, "int", p⟩, rfl⟩
    (.last ⟨⟨.name, "x", p⟩, rfl⟩ (.given ⟨⟨.equal, "=", p⟩, rfl⟩ value))
      ⟨⟨.semicolon, ";", p⟩, rfl⟩) .done, rfl, ?_, ?_, rfl⟩
  · exact ⟨⟨trivial, rfl, trivial⟩, trivial⟩
  · exact (by decide : 2 ≤ maxNesting)

end Program
end MiniCheck
