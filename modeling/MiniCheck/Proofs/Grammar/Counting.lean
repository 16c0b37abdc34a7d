import MiniCheck.Proofs.Grammar.Resuming

/-!
# Counting over many calls

A reader that is asked for one program after the other goes on counting where it stopped, also
behind an error, so it never gives a number twice.
-/

namespace MiniCheck
namespace Grammar
namespace Reader

/-- The numbers in the next answer, none in an error. -/
def answeredIds (r : Reader) : List Nat :=
  match r.answer with
  | .ok p => p.ids
  | .error _ => []

variable {r : Reader} {p : Program}

theorem Idle.ids_of_answer (h : r.Idle) (hanswer : r.answer = .ok p) :
    p.ids = List.range' r.nextId p.ids.length ∧ r.next.nextId = r.nextId + p.ids.length := by
  obtain ⟨_, heq, hcursor⟩ := h.call
  have hnext := congrArg Cursor.nextId hcursor
  rw [hanswer] at heq
  cases hrun : program r.cursor with
  | ok q d =>
    rw [hrun] at heq hnext
    cases heq
    obtain ⟨hids, hcounted⟩ := ids_of_program hrun
    exact ⟨hids, hnext.trans hcounted⟩
  | error m d =>
    rw [hrun] at heq
    cases heq

/-- A call counts on, never back, and the numbers in its answer are among those that it counts
over. -/
theorem Idle.counts (h : r.Idle) :
    ∃ k, r.next.nextId = r.nextId + k ∧ r.answeredIds.Sublist (List.range' r.nextId k) := by
  unfold answeredIds
  cases hanswer : r.answer with
  | ok p =>
    obtain ⟨hids, hnext⟩ := h.ids_of_answer hanswer
    refine ⟨p.ids.length, hnext, ?_⟩
    rw [← hids]
  | error m =>
    -- A new reader of the tokens that are left would have counted from zero.
    exact ⟨_, h.resumes.2.2.trans (Nat.add_comm _ _), List.nil_sublist _⟩

/-- The numbers in any number of answers are among those that all calls together count over. -/
theorem Idle.iterate_counts (h : r.Idle) (n : Nat) :
    ∃ k, (Reader.next^[n] r).nextId = r.nextId + k ∧
      ((List.range n).flatMap fun j => (Reader.next^[j] r).answeredIds).Sublist
        (List.range' r.nextId k) := by
  induction n with
  | zero => exact ⟨0, rfl, List.nil_sublist _⟩
  | succ n ih =>
    obtain ⟨k, hk, hbefore⟩ := ih
    obtain ⟨l, hl, hlast⟩ := (h.iterate n).1.counts
    rw [hk] at hl hlast
    refine ⟨k + l, ?_, ?_⟩
    · rw [Function.iterate_succ_apply', hl, Nat.add_assoc]
    · rw [List.range_succ, List.flatMap_append, List.flatMap_singleton, ← List.range'_append_1]
      exact hbefore.append hlast

end Reader
end Grammar

namespace Program

open Grammar

/-- The programs that a reader answers are numbered in one go. It starts to count at zero;
an answer has, in the order in which its expressions are read, the numbers from the counter
on, and leaves the counter right behind them; and none is ever given twice, whatever errors
come in between. -/
theorem ids_answers (ts : List Token) :
    let reader (n : Nat) := Reader.next^[n] (.ofTokens ts)
    (reader 0).nextId = 0 ∧
    (∀ n p, (reader n).answer = .ok p →
      ids p = List.range' (reader n).nextId (ids p).length ∧
      (reader (n + 1)).nextId = (reader n).nextId + (ids p).length) ∧
    ∀ n, ((List.range n).flatMap fun k => (reader k).answeredIds).Nodup := by
  intro reader
  have hidle := Reader.idle_ofTokens ts
  refine ⟨rfl, ?counted, ?distinct⟩
  case counted =>
    intro n p hanswer
    obtain ⟨hids, hnext⟩ := (hidle.iterate n).1.ids_of_answer hanswer
    have hreader : reader (n + 1) = (reader n).next := Function.iterate_succ_apply' ..
    rw [hreader]
    exact ⟨hids, hnext⟩
  case distinct =>
    intro n
    obtain ⟨_, _, hamong⟩ := hidle.iterate_counts n
    exact hamong.nodup List.nodup_range'

/-- The error in the first declaration has used up a number, so the program that begins
behind it is numbered from the next one on. -/
theorem ids_answers_behind_error :
    let p : Location := .first
    let ts : List Token := [⟨.intWord, "int", p⟩, ⟨.name, "a", p⟩, ⟨.equal, "=", p⟩,
      ⟨.number, "1", p⟩, ⟨.intWord, "int", p⟩, ⟨.name, "b", p⟩, ⟨.equal, "=", p⟩,
      ⟨.number, "2", p⟩, ⟨.semicolon, ";", p⟩]
    let reader (n : Nat) := Reader.next^[n] (.ofTokens ts)
    let b : Program := [.declareVar "b" .int (some (.number "2" ⟨1, p⟩)) p]
    (reader 0).answeredIds = [] ∧ (reader 1).answer = .ok b ∧
      ids b = List.range' (reader 1).nextId (ids b).length ∧
      ((List.range 2).flatMap fun k => (reader k).answeredIds).Nodup := by
  intro p ts reader b
  have hbehind : reader 1 = ⟨ts, 4, 1, 0⟩ := by rfl
  have hb : (reader 1).answer = .ok b := by
    rw [hbehind]
    rfl
  obtain ⟨_, hcounted, hdistinct⟩ := ids_answers ts
  exact ⟨by rfl, hb, (hcounted 1 b hb).1, hdistinct 2⟩

end Program
end MiniCheck
