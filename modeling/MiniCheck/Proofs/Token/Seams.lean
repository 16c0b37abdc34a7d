import MiniCheck.Proofs.Token.Gaps
import MiniCheck.Proofs.Token.Lexemes

/-!
# One text behind another

A line feed behind a text ends a comment to the end of the line and gives back a slash that
was held, so only a block comment could reach into what follows. What follows is read as if it
stood alone, but so many lines further down.
-/

namespace MiniCheck

namespace Relabelling

/-- Numbers that are greater by `n`, and places that are `l` lines further down. -/
def moved (n l : Nat) : Relabelling := ⟨fun i => i + n, fun p => ⟨p.line + l, p.column⟩⟩

end Relabelling

open Relabelling (moved)

namespace Glyph

theorem locateFrom_moved (n l : Nat) (p : Location) (cs : List Char) :
    locateFrom ((moved n l).place p) cs = relabel (moved n l) (locateFrom p cs) := by
  induction cs generalizing p with
  | nil => rfl
  | cons c cs ih =>
    have hnext : ((moved n l).place p).next c = (moved n l).place (p.next c) := by
      unfold Location.next
      split
      · simp [moved, Nat.add_right_comm]
      · rfl
    rw [locateFrom, locateFrom, relabel_cons, ← ih, ← hnext]
    rfl

end Glyph

namespace Trivia

/-- The text ends in a block comment that is still open. -/
def OpenAtEnd (s : String) : Prop := InBlock (code.after (Glyph.locate s))

variable {s : Trivia} {g : Glyph}

theorem next_newline (hs : ¬ InBlock s) (hg : g.char = '\n') : s.next g = code := by
  cases s with
  | code => simp [next, opening, hg]
  | slash held => simp [next, opening, hg]
  | line => simp [next, hg]
  | block => exact absurd .block hs
  | star => exact absurd .star hs

/-- A line feed gives out what the end of the text would. -/
theorem emit_newline (s : Trivia) (hg : g.char = '\n') : s.emit g = s.pending := by
  cases s with
  | slash held => simp [emit, pending, keep, isBlank, hg]
  | code => simp [emit, pending, keep, isBlank, hg]
  | _ => rfl

end Trivia

namespace Token

open Trivia (code visibleFrom)

section Seams

variable {s t : String} {ts us : List Token}

theorem locate_append_newline (s t : String) (n : Nat) :
    Glyph.locate (s ++ "\n" ++ t) = Glyph.locate s ++ ⟨'\n', Location.afterText s.toList⟩ ::
      relabel (moved n (1 + s.toList.count '\n')) (Glyph.locate t) := by
  have hend : s.toList.foldl Location.next .first = Location.afterText s.toList :=
    Location.foldl_next_afterText [] s.toList
  have hnext : (Location.afterText s.toList).next '\n' =
      (moved n (1 + s.toList.count '\n')).place .first := by
    rw [Location.next_newline, Location.afterText, Nat.add_comm]
    rfl
  unfold Glyph.locate
  rw [← Glyph.locateFrom_moved, ← hnext, String.toList_append, String.toList_append,
    List.append_assoc, Glyph.locateFrom_append, hend]
  rfl

theorem material_append_newline (h : ¬ Trivia.OpenAtEnd s) (n : Nat) :
    material (s ++ "\n" ++ t) =
      material s ++ relabel (moved n (1 + s.toList.count '\n')) (material t) := by
  have hlater := Trivia.visibleFrom_relabel (moved n (1 + s.toList.count '\n')) code
    (Glyph.locate t)
  unfold material Trivia.visible
  rw [locate_append_newline s t n, Trivia.visibleFrom_append, Trivia.visibleFrom_eq code,
    List.append_assoc, ← hlater]
  congr 1
  -- The line feed gives out what was held, and behind it nothing is.
  rw [visibleFrom, Trivia.emit_newline _ rfl, Trivia.next_newline h rfl]
  rfl

/-- Behind a line feed, tokens that are not read together with the ones before it are read as
if they stood alone. -/
theorem ofText_append_newline (hopen : ¬ Trivia.OpenAtEnd s) (hs : ofText s = .ok ts)
    (ht : ofText t = .ok us) (hmeet : ∀ t ∈ ts.getLast?, ∀ u ∈ us.head?, Precedes t.kind u.kind)
    (n : Nat) :
    ofText (s ++ "\n" ++ t) = .ok (ts ++ relabel (moved n (1 + s.toList.count '\n')) us) := by
  unfold ofText
  rw [material_append_newline hopen n]
  refine scan_eq_ok_iff.mpr ((scan_eq_ok_iff.mp hs).append rfl (scan_eq_ok_iff.mp ht).relabel ?_)
  intro last hlast u hu
  cases us with
  | nil => cases hu
  | cons v us =>
    cases hu
    exact hmeet last hlast v rfl

end Seams

end Token
end MiniCheck
