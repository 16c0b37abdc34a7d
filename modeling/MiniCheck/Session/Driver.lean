import MiniCheck.Session.Sink

/-!
# The driver

A driver runs the phases over a text and reports on each as soon as it is over. Every line is
a write of its own. One that fails ends the run, which then has failed for that reason, and so
does a phase that objects to the text, once its complaint is written.
-/

namespace MiniCheck

inductive ColorChoice
  | auto
  | always
  | never
deriving DecidableEq, Repr

/-- Whether there is colour, given whether the output goes to a terminal. -/
def ColorChoice.enabled (terminal : Bool) : ColorChoice → Bool
  | auto => terminal
  | always => true
  | never => false

/-- A sink and what it has taken so far. -/
structure Output where
  sink : Sink
  written : Bytes
deriving DecidableEq, Repr

/-- A run that writes as it goes. -/
abbrev Run := ExceptT Failure (StateM Output)

namespace Run

/-- Writes to the sink. What goes beyond its limit is cut off, and the write fails. -/
def write (bytes : Bytes) : Run Unit := fun o =>
  (if o.sink.fits bytes then .ok () else .error (.unwritten "sink is full"),
    ⟨o.sink.after bytes, o.written ++ o.sink.written bytes⟩)

def writeLine (text : String) : Run Unit := write (encodeUtf8 (text ++ "\n"))

/-- One step of a session, from a sink to what is left of it. -/
def step (r : Run Unit) (sink : Sink) : Session.Step × Sink :=
  let (outcome, output) := r ⟨sink, []⟩
  (⟨output.written, outcome⟩, output.sink)

/-- Runs one after the other that share a sink. -/
def session : Sink → List (Run Unit) → List Session.Step
  | _, [] => []
  | sink, r :: rs =>
    let (first, sink) := r.step sink
    first :: session sink rs

end Run

namespace Driver

structure Config where
  verbose : Bool
  stage : Stage
  color : ColorChoice
  preview : Nat
deriving DecidableEq, Repr

end Driver

structure Driver where
  config : Driver.Config
  /-- Whether banners are coloured. -/
  styled : Bool
  palette : Palette

namespace Driver

open Run (writeLine)

def ofConfig (palette : Palette) (terminal : Bool) (c : Config) : Driver :=
  ⟨c, c.color.enabled terminal, palette⟩

variable (d : Driver)

def paint (tone : Tone) (text : String) : String :=
  if d.styled then d.palette.paint tone text else text

def separator (title : String) (tone : Tone) : Run Unit :=
  writeLine ("\n" ++ d.paint tone (Passage.bannerLine title))

def fail (title : String) (failure : Failure) : Run Unit := do
  d.separator title .failure
  writeLine failure.message
  throw failure

/-- The third phase. -/
def checkProgram (p : Program) : Run Unit := do
  d.separator "PHASE 3: SEMANTIC ANALYSIS" .heading
  let a := Analysis.ofProgram p
  writeLine a.symbols.report
  writeLine ("\n" ++ Diagnostic.report a.diagnostics)
  if a.isOk then
    d.separator "COMPILATION SUCCEEDED" .success
    writeLine "The program passed every phase"
  else
    let count := a.diagnostics.length
    d.separator "COMPILATION FAILED" .failure
    writeLine s!"Semantic errors: {count}"
    throw (.diagnostics count)

/-- The phases behind the first. -/
def compileTokens (ts : List Token) : Run Unit := do
  d.separator "PHASE 2: SYNTAX ANALYSIS" .heading
  match Program.ofTokens ts with
  | .error m => d.fail "SYNTAX ERROR" (.parse m)
  | .ok p =>
    if d.config.stage = .parse then
      writeLine p.outline
    else
      writeLine "Syntax analysis completed"
      if d.config.verbose then
        writeLine "\nAST structure:"
        writeLine p.outline
      d.checkProgram p

/-- Runs the phases over a text. -/
def compileText (text : String) : Run Unit := do
  writeLine s!"Size: {text.length} characters"
  d.separator "PHASE 1: LEXICAL ANALYSIS" .heading
  match Token.ofText text with
  | .error e => d.fail "LEXICAL ERROR" (.scan e)
  | .ok ts =>
    if d.config.stage = .lex then
      writeLine (Token.listing ts)
    else
      writeLine "Lexical analysis completed"
      writeLine s!"Tokens generated: {ts.length}"
      if d.config.verbose then
        writeLine s!"\nFirst {d.config.preview} tokens:"
        writeLine (Token.preview ts d.config.preview)
      d.compileTokens ts

/-- Runs the phases over a file, given its text or why that cannot be read. -/
def compileFile (path : String) (content : Except String String) : Run Unit := do
  match content with
  | .error cause => d.fail "FILE ERROR" (.unreadable path cause)
  | .ok text =>
    writeLine ("File: " ++ path)
    d.compileText text

end Driver
end MiniCheck
