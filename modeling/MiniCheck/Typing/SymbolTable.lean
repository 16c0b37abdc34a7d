import MiniCheck.Typing.Diagnostic

/-!
# Symbol tables

Variables live in a stack of frames with the global frame at its bottom, and a
name means its innermost declaration. Functions live in one table of their own
and never go away. A declaration of a name that its frame, or the function
table, already has is refused and changes nothing.

The global frame is kept apart from the others, so it can never be popped.
Frames and functions list their entries from the latest to the first.
-/

namespace MiniCheck

structure Signature where
  returns : BaseType
  params : List BaseType
deriving DecidableEq, Repr

abbrev Frame := List (String × BaseType)

structure SymbolTable where
  inner : List Frame
  outermost : Frame
  known : List (String × Signature)
deriving DecidableEq, Repr

namespace SymbolTable

def empty : SymbolTable := ⟨[], [], []⟩

variable (t : SymbolTable)

/-- All frames, the innermost first. -/
def frames : List Frame := t.inner ++ [t.outermost]

def depth : Nat := t.inner.length + 1

def innermost : Frame := t.inner.headD t.outermost

def push : SymbolTable := { t with inner := [] :: t.inner }

def pop : SymbolTable := { t with inner := t.inner.tail }

/-- Adds a variable to the innermost frame, whether or not the frame has the name. -/
def bind (name : String) (type : BaseType) : SymbolTable :=
  match t.inner with
  | [] => { t with outermost := (name, type) :: t.outermost }
  | f :: fs => { t with inner := ((name, type) :: f) :: fs }

def declareVariable (name : String) (type : BaseType) (p : Location) :
    Except Diagnostic SymbolTable :=
  if (t.innermost.lookup name).isSome then .error ⟨.duplicateVariable name, p⟩
  else .ok (t.bind name type)

def declareFunction (name : String) (signature : Signature) (p : Location) :
    Except Diagnostic SymbolTable :=
  if (t.known.lookup name).isSome then .error ⟨.duplicateFunction name, p⟩
  else .ok { t with known := (name, signature) :: t.known }

/-- The type that a variable has here. -/
def typeOf? (name : String) : Option BaseType := t.frames.findSome? fun f => f.lookup name

def signatureOf? (name : String) : Option Signature := t.known.lookup name

/-- The global variables in the order of their declaration. -/
def globals : List (String × BaseType) := t.outermost.reverse

/-- The functions in the order of their declaration. -/
def functions : List (String × Signature) := t.known.reverse

@[simp] theorem length_frames : t.frames.length = t.depth := by
  simp [frames, depth]

@[simp] theorem innermost_bind (name : String) (type : BaseType) :
    (t.bind name type).innermost = (name, type) :: t.innermost := by
  unfold bind innermost
  split <;> simp_all

end SymbolTable
end MiniCheck
