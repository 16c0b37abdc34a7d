import MiniCheck.Glyph

/-!
# Blanks and comments

Spaces, tabs, carriage returns and line feeds are dropped, and so are comments:
`#` and `//` reach to the end of the line, `/*` to the next `*/` or to the end
of the text. A comment opener inside a comment means nothing, and `/*/` leaves
its comment open.

One character is read at a time. A slash alone cannot be judged before its
successor is known, so it is held back in the state that it leads to.
-/

namespace MiniCheck

/-- Where a reader of blanks and comments stands. -/
inductive Trivia
  | code
  | slash (held : Glyph)
  | line
  | block
  | star
deriving DecidableEq, Repr

namespace Trivia

def isBlank (c : Char) : Bool := c = ' ' || c = '\t' || c = '\r' || c = '\n'

/-- The state after `g` where no comment is open and no slash is held. -/
def opening (g : Glyph) : Trivia :=
  if g.char = '#' then .line else if g.char = '/' then .slash g else .code

/-- What becomes of `g` where no comment is open and no slash is held. -/
def keep (g : Glyph) : List Glyph :=
  if g.char = '#' || g.char = '/' || isBlank g.char then [] else [g]

def next : Trivia → Glyph → Trivia
  | code, g => opening g
  | slash _, g => if g.char = '/' then line else if g.char = '*' then block else opening g
  | line, g => if g.char = '\n' then code else line
  | block, g => if g.char = '*' then star else block
  | star, g => if g.char = '/' then code else if g.char = '*' then star else block

/-- The glyphs that are known to stay once `g` has been read. -/
def emit : Trivia → Glyph → List Glyph
  | code, g => keep g
  | slash held, g => if g.char = '/' || g.char = '*' then [] else held :: keep g
  | _, _ => []

/-- The glyphs that stay when the text ends here. -/
def pending : Trivia → List Glyph
  | slash held => [held]
  | _ => []

/-- The state after all of `gs`. -/
def after (s : Trivia) (gs : List Glyph) : Trivia := gs.foldl next s

/-- The glyphs of `gs` that are neither blank nor inside a comment. -/
def visibleFrom : Trivia → List Glyph → List Glyph
  | s, [] => s.pending
  | s, g :: gs => s.emit g ++ visibleFrom (s.next g) gs

def visible (gs : List Glyph) : List Glyph := visibleFrom code gs

/-- The glyphs that stay whatever text follows `gs`. -/
def settledFrom : Trivia → List Glyph → List Glyph
  | _, [] => []
  | s, g :: gs => s.emit g ++ settledFrom (s.next g) gs

theorem visibleFrom_append (s : Trivia) (gs hs : List Glyph) :
    visibleFrom s (gs ++ hs) = settledFrom s gs ++ visibleFrom (s.after gs) hs := by
  induction gs generalizing s with
  | nil => rfl
  | cons g gs ih => simp [visibleFrom, settledFrom, after, ih]

theorem visibleFrom_eq (s : Trivia) (gs : List Glyph) :
    visibleFrom s gs = settledFrom s gs ++ (s.after gs).pending := by
  simpa [visibleFrom] using visibleFrom_append s gs []

end Trivia
end MiniCheck
