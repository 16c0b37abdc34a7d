import MiniCheck.Proofs.Token.Longest

/-!
# The rules of tokens

Which token stands at the front of some characters: a number if there is one, else a mark
of two characters, else a mark of one, else a keyword that begins the longest name, else
that name. A number must not run into a letter. What is said here is which token is the
right one, not how it is looked for; no rule depends on the order of the keywords.
-/

namespace MiniCheck
namespace Token

/-- The spelling of one of some kinds. -/
def IsSpelling (ks : List Kind) (word : List Char) : Prop :=
  ∃ k ∈ ks, k.spelling?.map String.toList = some word

/-- A letter of any script, or an underscore. -/
def RunsOn (c : Char) : Prop := Text.isAlphabetic c = true ∨ c = '_'

section Rules

variable (word : List Char)

structure NoNumber : Prop where
  number : NoBeginning IsNumber word

structure NoPair : Prop extends NoNumber word where
  pair : NoBeginning (IsSpelling Kind.pairs) word

structure NoMark : Prop extends NoPair word where
  single : NoBeginning (IsSpelling Kind.singles) word

end Rules

/-- `Leads k front rest`: at the front of `front ++ rest` stands the token `front`. -/
inductive Leads : Kind → List Char → List Char → Prop
  | number {front rest : List Char} (h : Longest IsNumber front rest)
      (hrest : ∀ c ∈ rest.head?, ¬ RunsOn c) : Leads .number front rest
  | pair {k : Kind} {front rest : List Char} (hno : NoNumber (front ++ rest))
      (hk : k ∈ Kind.pairs) (h : k.spelling?.map String.toList = some front) : Leads k front rest
  | single {k : Kind} {front rest : List Char} (hno : NoPair (front ++ rest))
      (hk : k ∈ Kind.singles) (h : k.spelling?.map String.toList = some front) : Leads k front rest
  | keyword {k : Kind} {front more rest : List Char} (hno : NoMark (front ++ (more ++ rest)))
      (hname : Longest IsName (front ++ more) rest) (hk : k ∈ Kind.keywords)
      (h : k.spelling?.map String.toList = some front) : Leads k front (more ++ rest)
  | name {front rest : List Char} (hno : NoMark (front ++ rest))
      (h : Longest IsName front rest)
      (hkeyword : NoBeginning (IsSpelling Kind.keywords) front) : Leads .name front rest

/-- The characters of some glyphs. -/
def chars (gs : List Glyph) : List Char := gs.map Glyph.char

/-- `Divides gs ts rest`: some glyphs from the front of `gs` are the tokens `ts`, and `rest`
is left. -/
inductive Divides : List Glyph → List Token → List Glyph → Prop
  | nil {gs : List Glyph} : Divides gs [] gs
  | cons {k : Kind} {g : Glyph} {front gs rest : List Glyph} {ts : List Token}
      (h : Leads k (chars (g :: front)) (chars gs)) (hrest : Divides gs ts rest) :
      Divides (g :: front ++ gs) (⟨k, Glyph.spelling (g :: front), g.location⟩ :: ts) rest

/-- Why no token stands at the front. -/
inductive Stuck : List Glyph → ScanError → Prop
  | badNumber {g last : Glyph} {front rest : List Glyph}
      (h : Longest IsNumber (chars (g :: front)) (chars (last :: rest)))
      (hlast : RunsOn last.char) :
      Stuck (g :: front ++ last :: rest)
        (.badNumber (Glyph.spelling (g :: front ++ [last])) g.location)
  | unexpected {g : Glyph} {rest : List Glyph} (hno : NoMark (chars (g :: rest)))
      (hname : NoBeginning IsName (chars (g :: rest))) :
      Stuck (g :: rest) (.unexpected g.char g.location)

end Token
end MiniCheck
