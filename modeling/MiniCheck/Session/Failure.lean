import MiniCheck.Grammar.Program
import MiniCheck.Token.Scan
import MiniCheck.Typing.Check

/-!
# Why a text was not accepted

A text fails in the first phase that objects to it. Diagnostics of the check
count as one failure; a file that cannot be read and a report that cannot be
written are failures too.
-/

namespace MiniCheck

inductive Failure
  | unreadable (path cause : String)
  | scan (error : Token.ScanError)
  | parse (mismatch : Grammar.Mismatch)
  | diagnostics (count : Nat)
  | unwritten (cause : String)
deriving DecidableEq, Repr

namespace Failure

def message : Failure → String
  | unreadable path cause => s!"could not read file '{path}': {cause}"
  | scan e => e.message
  | parse m => m.message
  | diagnostics count => s!"{count} semantic error(s) found"
  | unwritten cause => s!"could not write report: {cause}"

end Failure

namespace Analysis

/-- The analysis of a text that can be scanned and parsed, whatever the check finds. -/
def ofText (text : String) : Except Failure Analysis := do
  let ts ← (Token.ofText text).mapError .scan
  let p ← (Program.ofTokens ts).mapError .parse
  return ofProgram p

end Analysis
end MiniCheck
