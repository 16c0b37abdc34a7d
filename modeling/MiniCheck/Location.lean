/-!
# Places in a text

Lines are counted by line feeds and columns by characters, both from one. A
place is only ever moved by the character that stands at it.
-/

namespace MiniCheck

structure Location where
  line : Nat
  column : Nat
deriving DecidableEq, Repr

namespace Location

/-- The place of a text's first character. -/
def first : Location := ⟨1, 1⟩

/-- The place right after the character `c` that stands at `p`. -/
def next (p : Location) (c : Char) : Location :=
  if c = '\n' then ⟨p.line + 1, 1⟩ else ⟨p.line, p.column + 1⟩

/-- The place `n` characters further on in the same line. -/
def right (p : Location) (n : Nat) : Location := ⟨p.line, p.column + n⟩

def describe (p : Location) : String := s!"line {p.line}, column {p.column}"

instance : ToString Location := ⟨describe⟩

@[simp] theorem next_newline (p : Location) : p.next '\n' = ⟨p.line + 1, 1⟩ := by
  simp [next]

theorem next_of_ne {c : Char} (h : c ≠ '\n') (p : Location) : p.next c = p.right 1 := by
  simp [next, right, h]

@[simp] theorem right_zero (p : Location) : p.right 0 = p := rfl

@[simp] theorem right_right (p : Location) (m n : Nat) :
    (p.right m).right n = p.right (m + n) := by
  simp [right, Nat.add_assoc]

end Location
end MiniCheck
