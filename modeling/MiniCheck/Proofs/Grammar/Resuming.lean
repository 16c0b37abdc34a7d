import MiniCheck.Proofs.Grammar.Concatenation
import MiniCheck.Proofs.Grammar.Following
import MiniCheck.Proofs.Grammar.Locality

/-!
# Asking a reader again

A reader that has answered or failed goes on like a new reader of the tokens that are left,
except that it counts its expressions on. Once it has answered it has nothing left to read, and
where it fails without having moved it fails in the same way for ever.
-/

namespace MiniCheck
namespace Grammar

open Grammar.Parser

/-- A program is read to the end of the tokens. -/
theorem rest_of_program_ok {c d : Cursor} {p : Program} (h : program c = .ok p d) :
    d.rest = [] := by
  rw [Program.program_apply] at h
  obtain ⟨nodes, e, _, h⟩ := bind_eq_ok_iff.mp h
  rw [bind_of_ok (remaining_apply _)] at h
  cases hrest : e.rest with
  | nil =>
    rw [hrest] at h
    cases h
    exact hrest
  | cons t ts =>
    rw [hrest] at h
    cases h

theorem program_of_rest_nil {c : Cursor} (h : c.rest = []) : program c = .ok [] c := by
  obtain ⟨rest, i, f⟩ := c
  obtain rfl : rest = [] := h
  rfl

theorem tokens_moved (n : Nat) (ts : List Token) : relabel (Relabelling.moved n 0) ts = ts :=
  List.map_id' ts

namespace Reader

variable {r : Reader} {m : Mismatch} {p : Program}

/-- The reader is between two calls: no nesting level is open. -/
structure Idle (r : Reader) : Prop where
  depth : r.depth = 0
  within : r.Within

theorem idle_ofTokens (ts : List Token) : (ofTokens ts).Idle := ⟨rfl, Nat.zero_le _⟩

/-- A cursor has the tokens that are left, and knows of the others where the last one ends. -/
theorem cursor_eq_moved (h : r.cursor.rest ≠ []) :
    r.cursor = relabel (.moved r.nextId 0) (Cursor.ofTokens r.cursor.rest) := by
  have hlt : ¬ r.tokens.length ≤ r.position := fun hle => h (List.drop_eq_nil_of_le hle)
  have hlast : r.cursor.rest.getLast? = r.tokens.getLast? := by
    rw [cursor, List.getLast?_drop, if_neg hlt]
  have hmoved : relabel (.moved r.nextId 0) (Cursor.ofTokens r.cursor.rest) =
      ⟨relabel (.moved r.nextId 0) r.cursor.rest, 0 + r.nextId,
        (r.cursor.rest.getLast?.map Token.finish).getD .first⟩ := rfl
  rw [hmoved, tokens_moved, Nat.zero_add, hlast]
  rfl

/-- What a call does, seen from a cursor. -/
theorem Idle.call (h : r.Idle) :
    r.Onward r.next ∧ r.answer = Program.outcome (program r.cursor) ∧
      r.next.cursor = stopped (program r.cursor) := by
  have hagrees := Follows.program r h.within h.depth
  unfold answer next
  generalize Reading.program r = read, program r.cursor = parsed at hagrees
  cases hagrees with
  | ok a hs => exact ⟨hs, rfl, rfl⟩
  | error m hs => exact ⟨hs, rfl, rfl⟩

theorem Idle.next (h : r.Idle) : r.next.Idle :=
  ⟨h.call.1.depth.trans h.depth, h.call.1.within⟩

theorem answer_ofTokens (ts : List Token) : (ofTokens ts).answer = Program.ofTokens ts :=
  (idle_ofTokens ts).call.2.1

/-- What cursors read from the tokens that are left does not depend on how many have been read,
nor on how many numbers have been given. -/
theorem program_cursor (r : Reader) :
    let alone := program (Cursor.ofTokens r.cursor.rest)
    Program.outcome (program r.cursor) =
        (Program.outcome alone).map (relabel (.moved r.nextId 0)) ∧
      (stopped (program r.cursor)).rest = (stopped alone).rest ∧
      (stopped (program r.cursor)).nextId = (stopped alone).nextId + r.nextId := by
  intro alone
  by_cases hrest : r.cursor.rest = []
  · have halone : alone = .ok [] (Cursor.ofTokens r.cursor.rest) := program_of_rest_nil hrest
    rw [program_of_rest_nil hrest, halone]
    exact ⟨rfl, rfl, (Nat.zero_add _).symm⟩
  · have hmirrors : program r.cursor = relabel (.moved r.nextId 0) alone := by
      rw [← Mirrors.program (Relabelling.counts_moved r.nextId 0), ← cursor_eq_moved hrest]
    rw [hmirrors]
    cases alone with
    | ok nodes d => exact ⟨rfl, tokens_moved _ _, rfl⟩
    | error m d => exact ⟨rfl, tokens_moved _ _, rfl⟩

/-- The next call does what the first call of a new reader does. -/
theorem Idle.resumes (h : r.Idle) :
    let alone := ofTokens (r.tokens.drop r.position)
    r.answer = alone.answer.map (relabel (.moved r.nextId 0)) ∧
      r.next.position = r.position + alone.next.position ∧
      r.next.nextId = alone.next.nextId + r.nextId := by
  intro alone
  obtain ⟨honward, hanswer, hcursor⟩ := h.call
  obtain ⟨honward', hanswer', hcursor'⟩ := (idle_ofTokens (r.tokens.drop r.position)).call
  obtain ⟨houtcome, hrest, hid⟩ := r.program_cursor
  have hcursor' : alone.next.cursor = stopped (program (Cursor.ofTokens r.cursor.rest)) := hcursor'
  rw [← hcursor, ← hcursor'] at hrest hid
  refine ⟨?_, ?_, hid⟩
  · rw [hanswer, houtcome]
    exact congrArg (Except.map _) hanswer'.symm
  · have htokens : alone.next.tokens = r.tokens.drop r.position := honward'.tokens
    have hwithin : r.next.position ≤ r.tokens.length := honward.tokens ▸ honward.within
    have hwithin' : alone.next.position ≤ (r.tokens.drop r.position).length :=
      htokens ▸ honward'.within
    have hfrom : r.position ≤ r.tokens.length := h.within
    -- Both have equally many tokens left.
    have hleft : (r.next.tokens.drop r.next.position).length =
        (alone.next.tokens.drop alone.next.position).length := congrArg List.length hrest
    rw [honward.tokens, htokens, List.drop_drop, List.length_drop, List.length_drop] at hleft
    rw [List.length_drop] at hwithin'
    omega

/-! ## Many calls -/

theorem Idle.answer_of_rest_nil (h : r.Idle) (hrest : r.cursor.rest = []) :
    r.answer = .ok [] ∧ r.next.cursor.rest = [] := by
  obtain ⟨_, hanswer, hcursor⟩ := h.call
  rw [hanswer, hcursor, program_of_rest_nil hrest]
  exact ⟨rfl, hrest⟩

theorem Idle.rest_of_answer (h : r.Idle) (hanswer : r.answer = .ok p) :
    r.next.cursor.rest = [] := by
  obtain ⟨_, heq, hcursor⟩ := h.call
  rw [hanswer] at heq
  rw [hcursor]
  cases hrun : program r.cursor with
  | ok nodes d => exact rest_of_program_ok hrun
  | error m d =>
    rw [hrun] at heq
    cases heq

/-- A call that fails on the spot leaves the next one where it was itself. -/
theorem Idle.stuck (h : r.Idle) (hanswer : r.answer = .error m)
    (hstay : r.next.position = r.position) :
    r.next.answer = .error m ∧ r.next.next.position = r.next.position := by
  obtain ⟨hsame, hmoves, _⟩ := h.resumes
  obtain ⟨hsame', hmoves', _⟩ := h.next.resumes
  rw [h.call.1.tokens, hstay] at hsame' hmoves'
  constructor
  · rw [hsame']
    rw [hanswer] at hsame
    cases halone : (ofTokens (r.tokens.drop r.position)).answer with
    | ok nodes =>
      rw [halone] at hsame
      cases hsame
    | error m' =>
      rw [halone] at hsame
      cases hsame
      rfl
  · rw [hmoves', hstay]
    omega

theorem Idle.iterate (h : r.Idle) (k : Nat) : (Reader.next^[k] r).Idle ∧
    (Reader.next^[k] r).tokens = r.tokens := by
  induction k with
  | zero => exact ⟨h, rfl⟩
  | succ k ih =>
    obtain ⟨hidle, htokens⟩ := ih
    rw [Function.iterate_succ_apply']
    exact ⟨hidle.next, hidle.call.1.tokens.trans htokens⟩

theorem Idle.iterate_of_rest_nil (h : r.Idle) (hrest : r.cursor.rest = []) (j : Nat) :
    (Reader.next^[j] r).answer = .ok [] := by
  induction j generalizing r with
  | zero => exact (h.answer_of_rest_nil hrest).1
  | succ j ih =>
    rw [Function.iterate_succ_apply]
    exact ih h.next (h.answer_of_rest_nil hrest).2

theorem Idle.iterate_of_stuck (h : r.Idle) (hanswer : r.answer = .error m)
    (hstay : r.next.position = r.position) (j : Nat) :
    (Reader.next^[j] r).answer = .error m := by
  induction j generalizing r with
  | zero => exact hanswer
  | succ j ih =>
    rw [Function.iterate_succ_apply]
    exact ih h.next (h.stuck hanswer hstay).1 (h.stuck hanswer hstay).2

/-- However often a reader has been called, no nesting level is open behind the last call, and
the next one does what the first call of a new reader of the tokens that are left does: it finds
the same program, with its expressions numbered on, or the same error. Behind a program all
calls find the empty one, and a call that fails without passing over a token is repeated by all
later ones. -/
theorem resumed_as_fresh (ts : List Token) (k : Nat) :
    let r := Reader.next^[k] (ofTokens ts)
    let alone := ofTokens (ts.drop r.position)
    r.tokens = ts ∧ r.depth = 0 ∧ r.position ≤ r.next.position ∧ r.position ≤ ts.length ∧
      r.answer = alone.answer.map (relabel (.moved r.nextId 0)) ∧
      alone.answer = Program.ofTokens (ts.drop r.position) ∧
      (∀ p, r.answer = .ok p → ∀ j, (Reader.next^[j] r.next).answer = .ok []) ∧
      ∀ m, r.answer = .error m → r.next.position = r.position →
        ∀ j, (Reader.next^[j] r).answer = .error m := by
  intro r alone
  obtain ⟨hidle, htokens⟩ := (idle_ofTokens ts).iterate k
  have htokens : r.tokens = ts := htokens
  have hidle : r.Idle := hidle
  have hresumes := hidle.resumes.1
  have hwithin : r.position ≤ r.tokens.length := hidle.within
  rw [htokens] at hresumes hwithin
  refine ⟨htokens, hidle.depth, hidle.call.1.position, hwithin, hresumes,
    answer_ofTokens _, ?_, ?_⟩
  · intro p hanswer
    exact hidle.next.iterate_of_rest_nil (hidle.rest_of_answer hanswer)
  · intro m hanswer hstay
    exact hidle.iterate_of_stuck hanswer hstay

/-- The tokens of `int x = 1 int a = 2;`, where a semicolon is missing, and more behind them. -/
def unseparated (more : List Token) : List Token :=
  [⟨.intWord, "int", ⟨1, 1⟩⟩, ⟨.name, "x", ⟨1, 5⟩⟩, ⟨.equal, "=", ⟨1, 7⟩⟩, ⟨.number, "1", ⟨1, 9⟩⟩,
    ⟨.intWord, "int", ⟨1, 11⟩⟩, ⟨.name, "a", ⟨1, 15⟩⟩, ⟨.equal, "=", ⟨1, 17⟩⟩,
    ⟨.number, "2", ⟨1, 19⟩⟩, ⟨.semicolon, ";", ⟨1, 20⟩⟩] ++ more

/-- The second call begins at the second `int` and finds a program, in which `2` is the second
number, and all later calls find the empty one. With a sign behind the semicolon the second call
fails there, and the later ones fail on the spot. -/
theorem resumed_as_fresh_unseparated :
    (Reader.next^[1] (ofTokens (unseparated []))).answer =
        .ok [.declareVar "a" .int (some (.number "2" ⟨1, ⟨1, 19⟩⟩)) ⟨1, 15⟩] ∧
      (Reader.next^[1] (ofTokens (unseparated []))).answer =
        (ofTokens ((unseparated []).drop 4)).answer.map (relabel (.moved 1 0)) ∧
      (∀ j, (Reader.next^[j] (Reader.mk (unseparated []) 9 2 0)).answer = .ok []) ∧
      (Reader.next^[2] (ofTokens (unseparated [⟨.plus, "+", ⟨1, 22⟩⟩]))).answer =
        .error ⟨[.intWord, .floatWord, .voidWord, .eof], .plus, "+", "at top level", ⟨1, 22⟩⟩ ∧
      ∀ j, (Reader.next^[j] (Reader.mk (unseparated [⟨.plus, "+", ⟨1, 22⟩⟩]) 9 2 0)).answer =
        .error ⟨[.intWord, .floatWord, .voidWord, .eof], .plus, "+", "at top level", ⟨1, 22⟩⟩ := by
  have hfirst : Reader.next^[1] (ofTokens (unseparated [])) = ⟨unseparated [], 4, 1, 0⟩ := by rfl
  have hsecond : Reader.next^[2] (ofTokens (unseparated [⟨.plus, "+", ⟨1, 22⟩⟩])) =
    ⟨unseparated [⟨.plus, "+", ⟨1, 22⟩⟩], 9, 2, 0⟩ := by rfl
  have hresumed := resumed_as_fresh (unseparated []) 1
  have hresumed' := resumed_as_fresh (unseparated [⟨.plus, "+", ⟨1, 22⟩⟩]) 2
  rw [hfirst] at hresumed
  rw [hsecond] at hresumed'
  obtain ⟨_, _, _, _, hresumes, _, hok, _⟩ := hresumed
  obtain ⟨_, _, _, _, _, _, _, herror⟩ := hresumed'
  rw [hfirst, hsecond]
  exact ⟨by rfl, hresumes, hok _ (by rfl), by rfl, herror _ (by rfl) (by rfl)⟩

end Reader
end Grammar
end MiniCheck
