import MiniCheck.Location

/-!
# Characters with their places

Blanks and comments disappear before anything else is read, so each character
that stays has to carry the place it had in the text.
-/

namespace MiniCheck

structure Glyph where
  char : Char
  location : Location
deriving DecidableEq, Repr

namespace Glyph

/-- The characters of a text that begins at `p`. -/
def locateFrom (p : Location) : List Char → List Glyph
  | [] => []
  | c :: cs => ⟨c, p⟩ :: locateFrom (p.next c) cs

def locate (text : String) : List Glyph := locateFrom Location.first text.toList

/-- The text that the glyphs spell, wherever they stand. -/
def spelling (gs : List Glyph) : String := String.ofList (gs.map fun g => g.char)

@[simp] theorem map_char_locateFrom (p : Location) (cs : List Char) :
    (locateFrom p cs).map (fun g => g.char) = cs := by
  induction cs generalizing p with
  | nil => rfl
  | cons c cs ih => simp [locateFrom, ih]

theorem locateFrom_append (p : Location) (cs ds : List Char) :
    locateFrom p (cs ++ ds) = locateFrom p cs ++ locateFrom (cs.foldl Location.next p) ds := by
  induction cs generalizing p with
  | nil => rfl
  | cons c cs ih => simp [locateFrom, ih]

end Glyph
end MiniCheck
