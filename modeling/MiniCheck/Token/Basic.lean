import MiniCheck.Location
import MiniCheck.Text.Layout
import MiniCheck.Token.Kind

/-!
# Tokens

A token is a kind, the text it was read from and the place where that text
begins.
-/

namespace MiniCheck

structure Token where
  kind : Token.Kind
  lexeme : String
  location : Location
deriving DecidableEq, Repr

namespace Token

/-- The place right after the token, counted as if its text stood on one line. -/
def finish (t : Token) : Location := t.location.right t.lexeme.length

def render (t : Token) : String := s!"<{t.kind.tag}, \"{t.lexeme}\">"

/-- One token a line. -/
def listing (ts : List Token) : String := Text.lines (ts.map render)

/-- The first `limit` tokens with their numbers, and how many are left out. -/
def preview (ts : List Token) (limit : Nat) : String :=
  let shown := (Text.numbered ((ts.take limit).map render)).map fun l => "  " ++ l
  let rest := if ts.length > limit then [s!"  ... and {ts.length - limit} more"] else []
  Text.lines (shown ++ rest)

end Token
end MiniCheck
