import MiniCheck.Typing.SymbolTable

/-!
# Symbol tables as they are stored

A frame keeps a map from its names to their types, and beside it the names in the order of their
declaration, which the map does not tell. Functions stand in a list in that order, and a map
gives the place of each name in it. The innermost frame is the last one.
-/

namespace MiniCheck

/-- A map of which nothing but the values of single names can be seen. -/
structure NameMap (α : Type) where
  get? : String → Option α

namespace NameMap

variable {α : Type} (m : NameMap α)

def empty : NameMap α := ⟨fun _ => none⟩

def contains (name : String) : Bool := (m.get? name).isSome

/-- Gives a name a value, whether or not it has one. -/
def insert (name : String) (value : α) : NameMap α :=
  ⟨fun other => if other = name then some value else m.get? other⟩

@[ext] theorem ext {m m' : NameMap α} (h : ∀ name, m.get? name = m'.get? name) : m = m' :=
  congrArg mk (funext h)

end NameMap

structure StoredFrame where
  types : NameMap BaseType
  order : List String

namespace StoredFrame

variable (f : StoredFrame)

def empty : StoredFrame := ⟨.empty, []⟩

def insert (name : String) (type : BaseType) : StoredFrame :=
  ⟨f.types.insert name type, f.order ++ [name]⟩

def entries : List (String × BaseType) :=
  f.order.filterMap fun name => (f.types.get? name).map fun type => (name, type)

end StoredFrame

structure StoredTable where
  scopes : List StoredFrame
  functions : List (String × Signature)
  places : NameMap Nat

namespace StoredTable

variable (t : StoredTable)

def empty : StoredTable := ⟨[.empty], [], .empty⟩

def depth : Nat := t.scopes.length

def push : StoredTable := { t with scopes := t.scopes ++ [.empty] }

/-- Discards the innermost frame, but never the only one. -/
def pop : StoredTable :=
  if 1 < t.scopes.length then { t with scopes := t.scopes.dropLast } else t

def declareVariable (name : String) (type : BaseType) (p : Location) :
    Except Diagnostic Unit × StoredTable :=
  match t.scopes.getLast? with
  | none => (.ok (), t)
  | some f =>
    if f.types.contains name then (.error ⟨.duplicateVariable name, p⟩, t)
    else (.ok (), { t with scopes := t.scopes.dropLast ++ [f.insert name type] })

def declareFunction (name : String) (signature : Signature) (p : Location) :
    Except Diagnostic Unit × StoredTable :=
  if t.places.contains name then (.error ⟨.duplicateFunction name, p⟩, t)
  else
    (.ok (),
      { t with
        places := t.places.insert name t.functions.length
        functions := t.functions ++ [(name, signature)] })

/-- Looks for a name from the innermost frame outwards. -/
def typeOf? (name : String) : Option BaseType :=
  t.scopes.reverse.findSome? fun f => f.types.get? name

def signatureOf? (name : String) : Option Signature :=
  (t.places.get? name).bind fun place => t.functions[place]?.map Prod.snd

/-- The global variables in the order of their declaration. -/
def globals : List (String × BaseType) :=
  match t.scopes.head? with
  | none => []
  | some f => f.entries

end StoredTable
end MiniCheck
