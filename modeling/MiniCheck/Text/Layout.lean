/-!
# Rules, columns and lines

Reports are plain text in fixed columns. A column counts characters, so a text
longer than its column simply pushes the next one to the right.
-/

namespace MiniCheck
namespace Text

/-- How wide rules and banners are. -/
def pageWidth : Nat := 80

/-- A horizontal rule of `n` times the character `c`. -/
def rule (c : Char) (n : Nat) : String := String.ofList (List.replicate n c)

/-- Fills `s` up with blanks to at least `n` characters. -/
def padRight (n : Nat) (s : String) : String := s ++ rule ' ' (n - s.length)

def lines (parts : List String) : String := "\n".intercalate parts

/-- The parts with their numbers from one, as `number. part`. -/
def numbered (parts : List String) : List String :=
  (parts.zipIdx 1).map fun x => s!"{x.2}. {x.1}"

end Text
end MiniCheck
