import MiniCheck.Session.Driver

/-!
# The command line

Arguments are taken one after the other and the first that is wrong ends the
reading. A request for the version or for help is granted as soon as it is met,
so only what stands before it can still be wrong. An option that takes a value
has it behind an equals sign or in the next argument, and no option is given
twice. After `--` everything is a file name, and so is a dash alone anywhere.
-/

namespace MiniCheck
namespace CommandLine

inductive UsageError
  | unknownOption (name : String)
  | repeatedOption (name : String)
  | missingValue (option : String)
  | unexpectedValue (option value : String)
  | invalidValue (option value : String)
  | secondFile (name : String)
  | emptyFile
  | missingFile
deriving DecidableEq, Repr

def UsageError.message : UsageError → String
  | unknownOption name => s!"unexpected argument '{name}' found"
  | repeatedOption name => s!"the argument '{name}' cannot be used multiple times"
  | missingValue option => s!"a value is required for '{option}' but none was supplied"
  | unexpectedValue option value => s!"unexpected value '{value}' for '{option}' found"
  | invalidValue option value => s!"invalid value '{value}' for '{option}'"
  | secondFile name => s!"unexpected argument '{name}' found"
  | emptyFile => "a value is required for '<FILE>' but none was supplied"
  | missingFile => "the required argument '<FILE>' was not provided"

/-- What the arguments read so far have settled. -/
structure Arguments where
  file : Option String := none
  verbose : Bool := false
  stage : Option Stage := none
  color : Option ColorChoice := none
  preview : Option Nat := none
deriving DecidableEq, Repr

/-- A complete order to check a file. -/
structure Order extends Driver.Config where
  path : String
deriving DecidableEq, Repr

inductive Request
  | version
  | help
  | check (order : Order)
deriving DecidableEq, Repr

/-- The forms that an argument can have. -/
inductive Form
  | file (name : String)
  | long (name : String) (value : Option String)
  | short (letters : List Char)
  | endOfOptions
deriving DecidableEq, Repr

def Form.ofArgument (arg : String) : Form :=
  match arg.toList with
  | ['-', '-'] => .endOfOptions
  | '-' :: '-' :: cs =>
    let name := String.ofList (cs.takeWhile fun c => c ≠ '=')
    match cs.dropWhile fun c => c ≠ '=' with
    | [] => .long name none
    | _ :: value => .long name (some (String.ofList value))
  | '-' :: c :: cs => .short (c :: cs)
  | _ => .file arg

/-- Whether an argument can be the value of the option before it. -/
def isValue (arg : String) : Bool :=
  match Form.ofArgument arg with
  | .file _ => true
  | _ => false

/-- The long options that take no value. -/
def flags : List String := ["verbose", "version", "help"]

def stageOf? : String → Option Stage
  | "lex" => some .lex
  | "parse" => some .parse
  | "check" => some .check
  | _ => none

def colorOf? : String → Option ColorChoice
  | "auto" => some .auto
  | "always" => some .always
  | "never" => some .never
  | _ => none

/-- Reads decimal digits, at least one of them, behind an optional plus sign, as a
number of at most 64 bits. -/
def countOf? (text : String) : Option Nat :=
  let digits := match text.toList with
    | '+' :: cs => cs
    | cs => cs
  if digits.isEmpty || !digits.all Char.isDigit then none
  else
    let n := digits.foldl (fun n c => 10 * n + (c.toNat - '0'.toNat)) 0
    if n < UInt64.size then some n else none

namespace Arguments

variable (a : Arguments)

def setFile (name : String) : Except UsageError Arguments :=
  if a.file.isSome then .error (.secondFile name)
  else if name.isEmpty then .error .emptyFile
  else .ok { a with file := some name }

def setVerbose (option : String) : Except UsageError Arguments :=
  if a.verbose then .error (.repeatedOption option) else .ok { a with verbose := true }

/-- The value for an option that has none yet. -/
def value {α : Type} (option : String) (old : Option α) (read : String → Option α)
    (text : String) : Except UsageError α :=
  match read text with
  | none => .error (.invalidValue option text)
  | some x => if old.isSome then .error (.repeatedOption option) else .ok x

/-- How to set an option that takes a value. -/
def setter? : String → Option (String → Except UsageError Arguments)
  | "stage" => some fun text => do
    return { a with stage := some (← value "--stage" a.stage stageOf? text) }
  | "color" => some fun text => do
    return { a with color := some (← value "--color" a.color colorOf? text) }
  | "preview" => some fun text => do
    return { a with preview := some (← value "--preview" a.preview countOf? text) }
  | _ => none

def finish : Except UsageError Request :=
  match a.file with
  | none => .error .missingFile
  | some path => .ok <| .check
      { path
        verbose := a.verbose
        stage := a.stage.getD .check
        color := a.color.getD .auto
        preview := a.preview.getD 10 }

/-- Reads one-letter options written together, up to one that ends the reading. -/
def readLetters (a : Arguments) : List Char → Except UsageError (Request ⊕ Arguments)
  | [] => .ok (.inr a)
  | 'V' :: _ => .ok (.inl .version)
  | 'h' :: _ => .ok (.inl .help)
  | 'v' :: cs => do readLetters (← a.setVerbose "--verbose") cs
  | c :: _ => .error (.unknownOption s!"-{c}")

/-- Reads arguments that are all file names. -/
def readFiles (a : Arguments) : List String → Except UsageError Request
  | [] => a.finish
  | name :: rest => do readFiles (← a.setFile name) rest

def read (a : Arguments) : List String → Except UsageError Request
  | [] => a.finish
  | arg :: rest => do
    match Form.ofArgument arg with
    | .endOfOptions => readFiles a rest
    | .file name => read (← a.setFile name) rest
    | .short letters =>
      match ← a.readLetters letters with
      | .inl request => return request
      | .inr a => read a rest
    | .long "version" none => return .version
    | .long "help" none => return .help
    | .long "verbose" none => read (← a.setVerbose "--verbose") rest
    | .long name given =>
      match a.setter? name, given, rest with
      | some set, some text, rest => read (← set text) rest
      | some set, none, text :: rest =>
        if isValue text then read (← set text) rest else .error (.missingValue arg)
      | some _, none, [] => .error (.missingValue arg)
      | none, some text, _ =>
        .error (if name ∈ flags then .unexpectedValue s!"--{name}" text else .unknownOption arg)
      | none, none, _ => .error (.unknownOption arg)

end Arguments

def parse (args : List String) : Except UsageError Request := Arguments.read {} args

def version : String := "minic 0.1.0"

def usage : String := "Usage: minic [OPTIONS] <FILE>"

/-- What a run of the program leaves behind. -/
structure Reply where
  status : Nat
  output : String
deriving DecidableEq, Repr

/-- The reply to an order, given the text of its file or why that cannot be read, and
whether the output goes to a terminal. -/
def Order.reply (order : Order) (palette : Palette) (terminal : Bool)
    (content : Except String String) : Reply :=
  let t := Transcript.ofFile order.stage order.preview order.path content
  ⟨if t.outcome.isOk then 0 else 1,
    t.render ⟨order.verbose, order.color.enabled terminal, palette⟩⟩

/-- The reply to all arguments, in a directory whose files `read` gives. -/
def reply (palette : Palette) (args : List String) (terminal : Bool)
    (read : String → Except String String) : Reply :=
  match parse args with
  | .error _ => ⟨2, ""⟩
  | .ok .version => ⟨0, version ++ "\n"⟩
  | .ok .help => ⟨0, usage ++ "\n"⟩
  | .ok (.check order) => order.reply palette terminal (read order.path)

end CommandLine

/-! ## The terminal of the program -/

namespace Terminal

/-- Switches to the colour of a tone, which has a number, and to bold. -/
def opening : Tone → String
  | .heading => "\x1b[38;5;14m\x1b[1m"
  | .success => "\x1b[38;5;10m\x1b[1m"
  | .failure => "\x1b[38;5;9m\x1b[1m"

/-- Switches colour and bold off again. -/
def reset : String := "\x1b[0m"

def palette : Palette := ⟨fun tone text => opening tone ++ text ++ reset⟩

theorem wraps_palette : palette.Wraps opening reset := fun _ _ => rfl

end Terminal
end MiniCheck
