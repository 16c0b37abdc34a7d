import MiniCheck.Proofs.Grammar.ProgramRelabelling
import MiniCheck.Proofs.Grammar.Slashes
import MiniCheck.Proofs.Token.Gaps
import MiniCheck.Proofs.Token.Rereading
import MiniCheck.Proofs.Typing.Relabelling
import MiniCheck.Session.Failure

/-!
# Layout means nothing

Two texts of which the same characters stay are read and checked in the same way, except for
the places that are reported. So blanks and comments may be put anywhere, and everything
between the tokens of a program may be taken out.
-/

namespace MiniCheck
namespace Analysis

/-- The analyses differ in the places of their diagnostics alone. -/
structure Matches (a b : Analysis) : Prop where
  faults : a.diagnostics.map Diagnostic.fault = b.diagnostics.map Diagnostic.fault
  symbols : a.symbols = b.symbols
  types : a.types = b.types

/-- The outcomes differ in places alone. -/
inductive Agree : Except Failure Analysis → Except Failure Analysis → Prop
  | unexpected (c : Char) (p q : Location) :
      Agree (.error (.scan (.unexpected c p))) (.error (.scan (.unexpected c q)))
  | badNumber (text : String) (p q : Location) :
      Agree (.error (.scan (.badNumber text p))) (.error (.scan (.badNumber text q)))
  | mismatch (expected : List Token.Kind) (found : Token.Kind) (lexeme context : String)
      (p q : Location) :
      Agree (.error (.parse ⟨expected, found, lexeme, context, p⟩))
        (.error (.parse ⟨expected, found, lexeme, context, q⟩))
  | analyzed {a b : Analysis} (h : a.Matches b) : Agree (.ok a) (.ok b)

theorem matches_of_unplaced_eq {a b : Analysis} (h : relabel .unplaced a = relabel .unplaced b) :
    a.Matches b := by
  have hfaults : ∀ ds : List Diagnostic,
      (relabel .unplaced ds).map Diagnostic.fault = ds.map Diagnostic.fault := fun _ =>
    List.map_map
  have htypes : ∀ ns : List (Nat × Ty), relabelTypes .unplaced ns = ns := fun ns => List.map_id ns
  have hdiagnostics := congrArg (fun c => c.diagnostics.map Diagnostic.fault) h
  have hsymbols := congrArg Analysis.symbols h
  have htable := congrArg Analysis.types h
  constructor
  · exact (hfaults a.diagnostics).symm.trans (hdiagnostics.trans (hfaults b.diagnostics))
  · exact hsymbols
  · exact (htypes a.types).symm.trans (htable.trans (htypes b.types))

/-- Programs that differ in places alone have the same faults and types. -/
theorem matches_ofProgram {p q : Program} (h : relabel .unplaced p = relabel .unplaced q) :
    (ofProgram p).Matches (ofProgram q) := by
  apply matches_of_unplaced_eq
  rw [← ofProgram_relabel, ← ofProgram_relabel, h]

theorem agree_scan {e e' : Token.ScanError} (h : relabel .unplaced e = relabel .unplaced e') :
    Agree (.error (.scan e)) (.error (.scan e')) := by
  cases e with
  | unexpected c p =>
    cases e' with
    | unexpected c' p' =>
      cases h
      exact .unexpected c p p'
    | badNumber text' p' => cases h
  | badNumber text p =>
    cases e' with
    | unexpected c' p' => cases h
    | badNumber text' p' =>
      cases h
      exact .badNumber text p p'

theorem agree_parse {m m' : Grammar.Mismatch} (h : relabel .unplaced m = relabel .unplaced m') :
    Agree (.error (.parse m)) (.error (.parse m')) := by
  obtain ⟨expected, found, lexeme, context, p⟩ := m
  obtain ⟨expected', found', lexeme', context', p'⟩ := m'
  cases h
  exact .mismatch expected found lexeme context p p'

/-- What is found in tokens depends on their places no more than the tree they are read as. -/
theorem agree_ofTokens {ts us : List Token}
    (h : relabel .unplaced (Program.ofTokens ts) = relabel .unplaced (Program.ofTokens us)) :
    Agree ((Program.ofTokens ts).mapError Failure.parse >>= fun p => .ok (ofProgram p))
      ((Program.ofTokens us).mapError Failure.parse >>= fun p => .ok (ofProgram p)) := by
  cases hus : Program.ofTokens us with
  | error m =>
    rw [hus] at h
    obtain ⟨m', hts, hsame⟩ := exists_error_of_relabel_eq h
    rw [hts]
    exact agree_parse hsame
  | ok q =>
    rw [hus] at h
    obtain ⟨p, hts, hsame⟩ := exists_ok_of_relabel_eq h
    rw [hts]
    exact .analyzed (matches_ofProgram hsame)

/-- What is read of a text and found in it depends on the characters that stay. -/
theorem agree_of_chars_eq {s t : String}
    (h : Token.chars (Token.material s) = Token.chars (Token.material t)) :
    Agree (ofText s) (ofText t) := by
  have hscan := Token.ofText_unplaced_eq h
  unfold ofText
  cases ht : Token.ofText t with
  | error e =>
    rw [ht] at hscan
    obtain ⟨e', hs, hsame⟩ := exists_error_of_relabel_eq hscan
    rw [hs]
    exact agree_scan hsame
  | ok us =>
    rw [ht] at hscan
    obtain ⟨ts, hs, hsame⟩ := exists_ok_of_relabel_eq hscan
    rw [hs]
    exact agree_ofTokens (Program.unplaced_ofTokens_eq hsame)

/-- Blanks and whole comments between `p` and `q` change nothing but places, wherever the text
`p` ends outside of comments, be it inside a token. If `p` ends in a slash that opens no
comment, then nothing behind it may make it open one. -/
theorem ofText_gap_agree {p c q : String} (hp : Trivia.Closed p.toList) (hc : Trivia.Gap c.toList)
    (hslash : ∀ pre, p.toList = pre ++ ['/'] → Trivia.Closed pre →
      Trivia.Plain c.toList ∧ Trivia.Plain q.toList) :
    Agree (ofText (p ++ c ++ q)) (ofText (p ++ q)) :=
  agree_of_chars_eq (Trivia.chars_material_gap hp hc hslash)

/-- Behind a slash that stays, a comment has to begin otherwise. -/
theorem ofText_gap_after_slash :
    Agree (ofText ("int x = 4 /" ++ "# half\n" ++ " 2;")) (ofText ("int x = 4 /" ++ " 2;")) := by
  have hp : Trivia.Closed "int x = 4 /".toList := by
    rw [Trivia.closed_iff]
    intro hinside
    rcases hinside with _ | hblock
    cases hblock
  have hhalf : '\n' ∉ " half".toList := by decide
  have hc : Trivia.Gap "# half\n".toList := .lineComment (.inl rfl) hhalf
  exact ofText_gap_agree hp hc fun _ _ _ => by decide

end Analysis

namespace Program

open Token (joined content)

/-- A program may be written without anything between its tokens: it is read again with the
same tokens as the same tree, with the same numbers, and the same is found in it. -/
theorem ofText_joined_of_ofTokens {s : String} {ts : List Token} {p : Program}
    (h : Token.ofText s = .ok ts) (hp : ofTokens ts = .ok p) :
    ∃ us q, Token.ofText (joined ts) = .ok us ∧ us.map content = ts.map content ∧
      ofTokens us = .ok q ∧ relabel .unplaced q = relabel .unplaced p ∧
        (Analysis.ofProgram q).Matches (Analysis.ofProgram p) := by
  have hclear := (Token.isChain_joined_iff h).mpr (divided hp).isChain
  obtain ⟨us, hus, hcontent⟩ := Token.ofText_joined h hclear
  have hparse := unplaced_ofTokens_eq (Token.relabel_eq_iff_content.mpr hcontent)
  rw [hp] at hparse
  obtain ⟨q, hq, hsame⟩ := exists_ok_of_relabel_eq hparse
  exact ⟨us, q, hus, hcontent, hq, hsame, Analysis.matches_ofProgram hsame⟩

/-- The comment behind the slash goes, and the slash stays an operator. -/
theorem ofText_joined_quotient :
    ∃ ts p, Token.ofText "int x = 8 / /* half */ 2;" = .ok ts ∧ ofTokens ts = .ok p ∧
      ∃ us q, Token.ofText (joined ts) = .ok us ∧ us.map content = ts.map content ∧
        ofTokens us = .ok q ∧ relabel .unplaced q = relabel .unplaced p ∧
          (Analysis.ofProgram q).Matches (Analysis.ofProgram p) := by
  let ts : List Token := [⟨.intWord, "int", ⟨1, 1⟩⟩, ⟨.name, "x", ⟨1, 5⟩⟩, ⟨.equal, "=", ⟨1, 7⟩⟩,
    ⟨.number, "8", ⟨1, 9⟩⟩, ⟨.slash, "/", ⟨1, 11⟩⟩, ⟨.number, "2", ⟨1, 24⟩⟩,
    ⟨.semicolon, ";", ⟨1, 25⟩⟩]
  let quotient : Expr :=
    .binary .div (.number "8" ⟨0, ⟨1, 9⟩⟩) (.number "2" ⟨1, ⟨1, 24⟩⟩) ⟨2, ⟨1, 11⟩⟩
  have hts : Token.ofText "int x = 8 / /* half */ 2;" = .ok ts := rfl
  have hp : ofTokens ts = .ok [.declareVar "x" .int (some quotient) ⟨1, 5⟩] := rfl
  exact ⟨ts, _, hts, hp, ofText_joined_of_ofTokens hts hp⟩

end Program
end MiniCheck
