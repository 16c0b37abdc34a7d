import MiniCheck.Text.Layout
import MiniCheck.Typing.Check

/-!
# Reports on a check

The symbol table is shown with its global variables and its functions in the
order of their declaration, in columns that a longer name pushes aside.
Diagnostics are numbered in the order in which they were found.
-/

namespace MiniCheck

open Text (pageWidth rule padRight)

def doubleRule : String := rule '=' pageWidth

namespace Signature

def parameterList (s : Signature) : String :=
  if s.params.isEmpty then "(no parameters)" else ", ".intercalate (s.params.map BaseType.name)

end Signature

namespace SymbolTable

def variableRow (name type : String) : String := s!"{padRight 20 name} {type}"

def functionRow (name returns params : String) : String :=
  s!"{padRight 20 name} {padRight 15 returns} {params}"

def variableRows (t : SymbolTable) : List String :=
  if t.globals.isEmpty then ["(none)"]
  else variableRow "Name" "Type" :: rule '-' 35 ::
    t.globals.map fun v => variableRow v.1 v.2.name

def functionRows (t : SymbolTable) : List String :=
  if t.functions.isEmpty then ["(none)"]
  else functionRow "Name" "Return Type" "Parameters" :: rule '-' 65 ::
    t.functions.map fun f => functionRow f.1 f.2.returns.name f.2.parameterList

def report (t : SymbolTable) : String :=
  Text.lines <|
    [doubleRule, "SYMBOL TABLE", doubleRule, "", "--- Global Variables ---"] ++ t.variableRows ++
      ["", "--- Functions ---"] ++ t.functionRows ++ ["", doubleRule]

end SymbolTable

namespace Diagnostic

def report (ds : List Diagnostic) : String :=
  if ds.isEmpty then "No semantic errors found"
  else Text.lines <|
    [doubleRule, "SEMANTIC ERRORS", doubleRule] ++ Text.numbered (ds.map message) ++ [doubleRule]

end Diagnostic
end MiniCheck
