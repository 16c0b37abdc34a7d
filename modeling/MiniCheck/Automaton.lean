/-!
# Longest accepted beginnings

A deterministic automaton with missing transitions reads from the front until
it gets stuck. Being stuck is no failure: the last accepting state passed
decides, and symbols read after it count for nothing.
-/

namespace MiniCheck

structure Automaton (Symbol : Type) where
  State : Type
  start : State
  step : State → Symbol → Option State
  accepting : State → Bool

namespace Automaton

variable {Symbol Mark : Type} (A : Automaton Symbol)

/-- The state reached by reading all of a word. -/
def run : A.State → List Symbol → Option A.State
  | s, [] => some s
  | s, x :: xs => (A.step s x).bind fun t => run t xs

def Accepts (word : List Symbol) : Prop :=
  ∃ s, A.run A.start word = some s ∧ A.accepting s = true

/-- The length of the longest non-empty accepted beginning, read from state `s`. -/
def longestFrom : A.State → List Symbol → Option Nat
  | _, [] => none
  | s, x :: xs =>
    match A.step s x with
    | none => none
    | some t =>
      match longestFrom t xs with
      | some n => some (n + 1)
      | none => if A.accepting t then some 1 else none

def longest (word : List Symbol) : Option Nat := A.longestFrom A.start word

/-- The same automaton reading marks that stand for symbols. -/
def comap (f : Mark → Symbol) : Automaton Mark where
  State := A.State
  start := A.start
  step := fun s m => A.step s (f m)
  accepting := A.accepting

theorem longestFrom_comap (f : Mark → Symbol) (s : A.State) (ms : List Mark) :
    (A.comap f).longestFrom s ms = A.longestFrom s (ms.map f) := by
  induction ms generalizing s with
  | nil => rfl
  | cons m ms ih =>
    have hstep : (A.comap f).step s m = A.step s (f m) := rfl
    simp only [longestFrom, List.map_cons, hstep]
    cases A.step s (f m) with
    | none => rfl
    | some t =>
      simp only [ih t]
      rfl

@[simp] theorem longest_comap (f : Mark → Symbol) (ms : List Mark) :
    (A.comap f).longest ms = A.longest (ms.map f) :=
  A.longestFrom_comap f A.start ms

theorem longestFrom_pos {s : A.State} {word : List Symbol} {n : Nat}
    (h : A.longestFrom s word = some n) : 0 < n ∧ n ≤ word.length := by
  induction word generalizing s n with
  | nil => simp [longestFrom] at h
  | cons x xs ih =>
    simp only [longestFrom] at h
    split at h
    · simp at h
    · split at h
      · rename_i m hm
        have := ih hm
        simp only [Option.some.injEq] at h
        simp only [List.length_cons]
        omega
      · split at h <;> simp at h
        subst h
        simp

theorem longest_pos {word : List Symbol} {n : Nat} (h : A.longest word = some n) :
    0 < n ∧ n ≤ word.length :=
  A.longestFrom_pos h

end Automaton
end MiniCheck
