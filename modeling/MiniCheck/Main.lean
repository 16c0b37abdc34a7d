import MiniCheck.CommandLine

/-!
# The program

Reads the file that the arguments name, prints the report and sets the exit
status. Everything else is decided in `CommandLine`.
-/

namespace MiniCheck

/-- The system's words for an error and its number. -/
def systemText : IO.Error → String
  | .noFileOrDirectory _ code details => s!"{details} (os error {code})"
  | .invalidArgument _ code details => s!"{details} (os error {code})"
  | .permissionDenied _ code details => s!"{details} (os error {code})"
  | .resourceExhausted _ code details => s!"{details} (os error {code})"
  | .inappropriateType _ code details => s!"{details} (os error {code})"
  | e => toString e

def readText (path : String) : IO (Except String String) := do
  try
    match String.fromUTF8? (← IO.FS.readBinFile path) with
    | some text => return .ok text
    | none => return .error "stream did not contain valid UTF-8"
  catch e => return .error (systemText e)

end MiniCheck

open MiniCheck in
def main (args : List String) : IO UInt32 := do
  let out ← IO.getStdout
  let content ← match CommandLine.parse args with
    | .ok (.check order) => readText order.path
    | .ok _ => pure (.ok "")
    | .error e =>
      IO.eprintln s!"error: {e.message}"
      pure (.ok "")
  let reply := CommandLine.reply Terminal.palette args (← out.isTty) fun _ => content
  try
    out.putStr reply.output
    out.flush
    return reply.status.toUInt32
  catch _ => return 1
