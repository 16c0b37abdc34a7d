import MiniCheck.Session.Failure
import MiniCheck.Tree.Summary
import MiniCheck.Typing.Report

/-!
# Transcripts

A transcript is everything that a run has to say, as a list of passages, and
how the run ended. It does not depend on how it is shown: whether details
appear and whether banners are coloured is decided when it is rendered.
-/

namespace MiniCheck

/-- The last phase that a run goes through. -/
inductive Stage
  | lex
  | parse
  | check
deriving DecidableEq, Repr

inductive Tone
  | heading
  | success
  | failure
deriving DecidableEq, Repr

inductive Passage
  | banner (tone : Tone) (title : String)
  | line (text : String)
  /-- A line that only a verbose report shows. -/
  | detail (text : String)
deriving DecidableEq, Repr

/-- How a text is written to be shown in bold and in the colour of a tone. Which escapes that
takes depends on the terminal. -/
structure Palette where
  paint : Tone → String → String

/-- A painted text has the opening of its tone ahead of it and a reset behind it. -/
def Palette.Wraps (palette : Palette) (opening : Tone → String) (reset : String) : Prop :=
  ∀ tone text, palette.paint tone text = opening tone ++ text ++ reset

/-- How transcripts are shown. -/
structure Style where
  verbose : Bool
  colored : Bool
  palette : Palette

def Style.paint (style : Style) (tone : Tone) (text : String) : String :=
  if style.colored then style.palette.paint tone text else text

namespace Passage

/-- A title in the middle of a line of dashes. -/
def bannerLine (title : String) : String :=
  let dashes := Text.rule '-' ((Text.pageWidth - (title.length + 2)) / 2)
  s!"{dashes} {title} {dashes}"

def isShown (style : Style) : Passage → Bool
  | detail _ => style.verbose
  | _ => true

def render (style : Style) : Passage → String
  | banner tone title => "\n" ++ style.paint tone (bannerLine title) ++ "\n"
  | line text | detail text => text ++ "\n"

end Passage

structure Transcript where
  passages : List Passage
  outcome : Except Failure Unit

namespace Transcript

open Passage

def after (before : List Passage) (t : Transcript) : Transcript :=
  { t with passages := before ++ t.passages }

def failed (title : String) (failure : Failure) : Transcript :=
  ⟨[banner .failure title, line failure.message], .error failure⟩

def ofAnalysis (a : Analysis) : Transcript :=
  let found := [line a.symbols.report, line ("\n" ++ Diagnostic.report a.diagnostics)]
  if a.isOk then
    ⟨found ++ [banner .success "COMPILATION SUCCEEDED", line "The program passed every phase"],
      .ok ()⟩
  else
    let count := a.diagnostics.length
    ⟨found ++ [banner .failure "COMPILATION FAILED", line s!"Semantic errors: {count}"],
      .error (.diagnostics count)⟩

def ofTokens (stage : Stage) (ts : List Token) : Transcript :=
  after [banner .heading "PHASE 2: SYNTAX ANALYSIS"] <|
    match Program.ofTokens ts with
    | .error m => failed "SYNTAX ERROR" (.parse m)
    | .ok p =>
      match stage with
      | .lex | .parse => ⟨[line p.outline], .ok ()⟩
      | .check =>
        after
          [line "Syntax analysis completed", detail "\nAST structure:", detail p.outline,
            banner .heading "PHASE 3: SEMANTIC ANALYSIS"]
          (ofAnalysis (.ofProgram p))

/-- The run over a text. The first `preview` tokens are among the details. -/
def ofText (stage : Stage) (preview : Nat) (text : String) : Transcript :=
  after [line s!"Size: {text.length} characters", banner .heading "PHASE 1: LEXICAL ANALYSIS"] <|
    match Token.ofText text with
    | .error e => failed "LEXICAL ERROR" (.scan e)
    | .ok ts =>
      match stage with
      | .lex => ⟨[line (Token.listing ts)], .ok ()⟩
      | .parse | .check =>
        after
          [line "Lexical analysis completed", line s!"Tokens generated: {ts.length}",
            detail s!"\nFirst {preview} tokens:", detail (Token.preview ts preview)]
          (ofTokens stage ts)

/-- The run over a file, given its text or why that cannot be read. -/
def ofFile (stage : Stage) (preview : Nat) (path : String) (content : Except String String) :
    Transcript :=
  match content with
  | .ok text => after [line ("File: " ++ path)] (ofText stage preview text)
  | .error cause => failed "FILE ERROR" (.unreadable path cause)

def render (style : Style) (t : Transcript) : String :=
  String.join ((t.passages.filter (Passage.isShown style)).map (Passage.render style))

@[simp] theorem outcome_after (before : List Passage) (t : Transcript) :
    (t.after before).outcome = t.outcome := rfl

end Transcript
end MiniCheck
