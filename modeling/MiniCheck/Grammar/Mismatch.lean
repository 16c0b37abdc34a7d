import MiniCheck.Token.Basic

/-!
# Where tokens stop fitting

Reading a program ends at the first token that no rule accepts. The report names
the kinds that would have been accepted, or none when the program is only
nested too deeply.
-/

namespace MiniCheck
namespace Grammar

open Token (Kind)

structure Mismatch where
  expected : List Kind
  found : Kind
  lexeme : String
  context : String
  location : Location
deriving DecidableEq, Repr

namespace Mismatch

def expectation : List Kind → String
  | [] => ""
  | [k] => "expected " ++ k.tag
  | ks => "expected one of " ++ ", ".intercalate (ks.map Kind.tag)

/-- The expectation and its context, with a blank between them if there are both. -/
def reason (m : Mismatch) : String :=
  let text := expectation m.expected
  if text.isEmpty || m.context.isEmpty then text ++ m.context else text ++ " " ++ m.context

def finding (m : Mismatch) : String :=
  if m.found = .eof then "found EOF" else s!"found {m.found.tag} \"{m.lexeme}\""

def message (m : Mismatch) : String :=
  s!"Parse error at {m.location}: {m.reason}, {m.finding}"

end Mismatch
end Grammar
end MiniCheck
