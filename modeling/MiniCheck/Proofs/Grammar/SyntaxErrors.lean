import MiniCheck.Proofs.Grammar.ProgramLocality
import MiniCheck.Proofs.Grammar.StmtViability

/-!
# Syntax errors are found as early as possible

The tokens in front of a syntax error begin some program, and so they do together with
any of the tokens that the report expects. The report is about the token behind them,
and what stands behind that token makes no difference.
-/

namespace MiniCheck
namespace Grammar

open Token (Kind)
open Grammar.Parser

namespace StmtDerivation

theorem exists_append : ∀ (P Q : StmtDerivation .program),
    ∃ R : StmtDerivation .program, R.tokens = P.tokens ++ Q.tokens
  | done, Q => ⟨Q, rfl⟩
  | next first rest, Q => by
    obtain ⟨R, hR⟩ := exists_append rest Q
    exact ⟨next first R, by simp [tokens, hR]⟩

/-- Another declaration can follow any program. -/
theorem exists_append_type (P : StmtDerivation .program) (w : TypeWord) :
    ∃ v, YieldsStmt .program (P.tokens ++ w.token.val :: v) := by
  obtain ⟨R, hR⟩ := exists_append P (next (vars w (.last (Token.sample .name) .absent)
    (Token.sample .semicolon)) done)
  exact ⟨_, R, hR⟩

end StmtDerivation

section Program

variable {ts : List Token} {i : Nat} {f : Location} {m : Mismatch} {d : Cursor}

theorem declarations_stuck {depth : Nat} {declaration : Parser (List Stmt)}
    (hread : ReadsDeclaration depth declaration)
    (hdecl : FailsWithin (YieldsStmt .declaration) declaration) (bound : List Token)
    (h : declarations declaration bound ⟨ts, i, f⟩ = .error m d) :
    Stuck (YieldsStmt .program) ts m d := by
  induction bound generalizing ts i with
  | nil => cases h
  | cons b bound ih =>
    cases htype : (headKind ts).isType with
    | false =>
      rw [declarations_of_not_type htype] at h
      cases h
    | true =>
      rw [declarations_of_type htype] at h
      rcases bind_eq_error_iff.mp h with h | ⟨declared, c, hdeclared, h⟩
      · refine (hdecl _ _ _ _ _ h).lift (w := []) ?_
        rintro _ ⟨D, rfl⟩
        exact ⟨[], .next D .done, by simp [StmtDerivation.tokens]⟩
      obtain ⟨D, r, rfl, _, _, rfl⟩ := hread.sound hdeclared
      rcases bind_eq_error_iff.mp h with h | ⟨rest, c, _, h⟩
      · apply (ih h).lift
        rintro _ ⟨P, rfl⟩
        exact ⟨[], .next D P, by simp [StmtDerivation.tokens]⟩
      · cases h

/-- The tokens `u` can be followed by a token of kind `k`, or by nothing if that is what `k`
stands for, on the way to a whole program. -/
def Continues (u : List Token) (k : Kind) : Prop :=
  (k = .eof → YieldsStmt .program u) ∧
    (k ≠ .eof → ∀ t : Token.Of k, ∃ v, YieldsStmt .program (u ++ t.val :: v))

theorem program_stuck (hts : ∀ t ∈ ts, t.kind ≠ .eof)
    (h : program ⟨ts, i, f⟩ = .error m d) :
    Reported m d ∧ ∃ u, ts = u ++ d.rest ∧ ∀ k ∈ m.expected, Continues u k := by
  rw [Program.program_apply] at h
  rcases bind_eq_error_iff.mp h with h | ⟨nodes, c, hnodes, h⟩
  · obtain ⟨hreport, u, hu, hviable⟩ := declarations_stuck
      (reads_declarations_of_depth maxNesting) (declaration_of_depth_stuck maxNesting) ts h
    refine ⟨hreport, u, hu, ?_⟩
    intro k hk
    obtain ⟨hne, hcomplete⟩ := hviable k hk
    exact ⟨fun heq => absurd heq hne, fun _ => hcomplete⟩
  · obtain ⟨P, r, rfl, _, _, htype, _, rfl⟩ :=
      declarations_sound (reads_declarations_of_depth maxNesting) ts (Nat.le_refl _) hnodes
    rw [bind_of_ok (remaining_apply _)] at h
    cases r with
    | nil => cases h
    | cons t r =>
      cases h
      have heof : t.kind ≠ .eof := hts t (by simp)
      refine ⟨⟨rfl, ?_, by simp [Cursor.mismatch, TooDeep]⟩, P.tokens, rfl, ?_⟩
      · intro k hk hfound
        have hkind : k = t.kind := hfound
        simp only [Cursor.mismatch, List.mem_cons, List.not_mem_nil, or_false] at hk
        rcases hk with rfl | rfl | rfl | rfl
        · rw [headKind_cons, ← hkind] at htype
          exact absurd htype (by decide)
        · rw [headKind_cons, ← hkind] at htype
          exact absurd htype (by decide)
        · rw [headKind_cons, ← hkind] at htype
          exact absurd htype (by decide)
        · exact heof hkind.symm
      · intro k hk
        simp only [Cursor.mismatch, List.mem_cons, List.not_mem_nil, or_false] at hk
        rcases hk with rfl | rfl | rfl | rfl
        · exact ⟨fun h => absurd h (by decide), fun _ t => P.exists_append_type ⟨.int, t⟩⟩
        · exact ⟨fun h => absurd h (by decide), fun _ t => P.exists_append_type ⟨.float, t⟩⟩
        · exact ⟨fun h => absurd h (by decide), fun _ t => P.exists_append_type ⟨.void, t⟩⟩
        · exact ⟨fun _ => ⟨P, rfl⟩, fun hne => absurd rfl hne⟩

end Program
end Grammar

namespace Program

open Grammar Grammar.Parser
open Token (Kind)

/-- The report `m` is about what stands at place `i` of some tokens, and is as early and as
exact as it can be. -/
structure ReportsAt (ts : List Token) (i : Nat) (m : Mismatch) : Prop where
  found : ∀ t, ts[i]? = some t →
    m.found = t.kind ∧ m.lexeme = t.lexeme ∧ m.location = t.location
  found_eof : ts[i]? = none → m.found = .eof
  /-- Whatever stands behind the reported token, the report is the same. -/
  unaffected : ∀ t, ts[i]? = some t → ∀ x, ofTokens (ts.take i ++ t :: x) = .error m
  viable : m.expected ≠ [] → ∃ v, YieldsStmt .program (ts.take i ++ v)
  continues : ∀ k ∈ m.expected, Continues (ts.take i) k
  unexpected : m.found ∉ m.expected
  too_deep : m.expected = [] ↔ TooDeep m.context

theorem ofTokens_error_iff {ts : List Token} {m : Mismatch} :
    ofTokens ts = .error m ↔ ∃ d, Grammar.program (.ofTokens ts) = .error m d := by
  unfold ofTokens
  cases Grammar.program (.ofTokens ts) with
  | ok nodes d => simp
  | error m' d => simp

/-- A syntax error is reported at the place where reading stopped, up to which the tokens
begin some program. -/
theorem ofTokens_error_reportsAt (ts : List Token) (hts : ∀ t ∈ ts, t.kind ≠ .eof) (m : Mismatch)
    (h : ofTokens ts = .error m) :
    ∃ (d : Cursor) (i : Nat), Grammar.program (.ofTokens ts) = .error m d ∧ i ≤ ts.length ∧
      d.rest = ts.drop i ∧ ReportsAt ts i m := by
  obtain ⟨d, hrun⟩ := ofTokens_error_iff.mp h
  obtain ⟨hreport, u, hu, hcontinues⟩ := program_stuck hts hrun
  have htake : ts.take u.length = u := by rw [hu, List.take_left]
  have hdrop : ts.drop u.length = d.rest := by rw [hu, List.drop_left]
  have hget : ts[u.length]? = d.rest.head? := by
    rw [← hdrop, List.head?_drop]
  refine ⟨d, u.length, hrun, by rw [hu, List.length_append]; omega, hdrop.symm, ?_⟩
  have hm := hreport.eq_mismatch
  constructor
  case found =>
    intro t ht
    rw [hget] at ht
    rw [hm]
    simp [Cursor.mismatch, Cursor.kind, Cursor.lexeme, Cursor.location, ht]
  case found_eof =>
    intro hnone
    rw [hget] at hnone
    rw [hm]
    simp [Cursor.mismatch, Cursor.kind, hnone]
  case unaffected =>
    intro t ht x
    rw [hget] at ht
    obtain ⟨v, hv, _, hmove⟩ := local_program (.ofTokens ts)
    rw [hrun] at hv hmove
    simp only [stopped_error, movedTo_error] at hv hmove
    have huv : v = u := List.append_cancel_right (hv.symm.trans hu)
    have hne : d.rest ≠ [] := by
      intro hnil
      rw [hnil] at ht
      cases ht
    rw [htake, ← huv]
    exact ofTokens_error_iff.mpr ⟨_, hmove (t :: x) _ hne ht.symm⟩
  case viable =>
    intro hne
    obtain ⟨k, hk⟩ := List.exists_mem_of_ne_nil _ hne
    obtain ⟨heof, hcomplete⟩ := hcontinues k hk
    rw [htake]
    by_cases hkind : k = .eof
    · exact ⟨[], by simpa using heof hkind⟩
    · obtain ⟨v, hv⟩ := hcomplete hkind (Token.sample k)
      exact ⟨_, hv⟩
  case continues =>
    rw [htake]
    exact hcontinues
  case unexpected =>
    intro hmem
    refine hreport.ne_found _ hmem ?_
    rw [hm]
    rfl
  case too_deep => exact hreport.eq_nil_iff

/-- A type name is followed by a name, not by a semicolon. -/
theorem reportsAt_missing_name :
    ∃ i, ReportsAt [⟨.intWord, "int", ⟨1, 1⟩⟩, ⟨.semicolon, ";", ⟨1, 4⟩⟩] i
      ⟨[.name], .semicolon, ";", "after type name", ⟨1, 4⟩⟩ := by
  obtain ⟨_, i, _, _, _, hreports⟩ := ofTokens_error_reportsAt
    [⟨.intWord, "int", ⟨1, 1⟩⟩, ⟨.semicolon, ";", ⟨1, 4⟩⟩] (by simp)
    ⟨[.name], .semicolon, ";", "after type name", ⟨1, 4⟩⟩ rfl
  exact ⟨i, hreports⟩

end Program
end MiniCheck
