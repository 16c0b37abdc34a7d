import MiniCheck.Typing.Infer

/-!
# Checking programs

A program is checked in one walk from the first statement to the last. A
declaration holds from the place where it stands, so a variable is known in its
own initializer and a function in its own body. A function has one frame for
its parameters and one inside it for its body. A declaration that is refused is
reported and otherwise passed over.
-/

namespace MiniCheck

/-- The state of a check between two statements. -/
structure Walk where
  symbols : SymbolTable
  /-- What the innermost enclosing function returns. -/
  returns : Option BaseType
  findings : Findings
deriving DecidableEq, Repr

namespace Walk

def start : Walk := ⟨.empty, none, .nothing⟩

def report (fault : Fault) (p : Location) : StateM Walk Unit := modify fun w =>
  { w with findings := (Findings.report fault p w.findings).2 }

def infer (e : Expr) : StateM Walk Ty := modifyGet fun w =>
  let answer := Typing.infer w.symbols e w.findings
  (answer.1, { w with findings := answer.2 })

/-- Makes a declaration and tells whether the symbol table took it. -/
def declare (declaration : SymbolTable → Except Diagnostic SymbolTable) : StateM Walk Bool := do
  match declaration (← get).symbols with
  | .ok symbols =>
    modify fun w => { w with symbols }
    return true
  | .error d =>
    report d.fault d.location
    return false

/-- Runs a walk inside a frame of its own. -/
def framed (walk : StateM Walk Unit) : StateM Walk Unit := do
  modify fun w => { w with symbols := w.symbols.push }
  walk
  modify fun w => { w with symbols := w.symbols.pop }

/-- Runs a walk inside a function that returns `type`. -/
def returning (type : BaseType) (walk : StateM Walk Unit) : StateM Walk Unit := do
  let enclosing := (← get).returns
  modify fun w => { w with returns := some type }
  walk
  modify fun w => { w with returns := enclosing }

def parameter (p : Param) : StateM Walk Unit := do
  let _ ← declare fun t => t.declareVariable p.name p.type p.location

def condition (construct : Construct) (e : Expr) : StateM Walk Unit := do
  let found ← infer e
  unless found.isCondition do report (.condition construct found) e.location

/-- Does nothing for an omitted clause. -/
def clause (e : Expr) (visit : Expr → StateM Walk Unit) : StateM Walk Unit :=
  if e.isOmitted then return () else visit e

def evaluate (e : Expr) : StateM Walk Unit := do
  let _ ← infer e

def initializer (name : String) (type : BaseType) : Option Expr → StateM Walk Unit
  | none => return ()
  | some init => do
    let found ← infer init
    unless Ty.accepts type found do report (.initializer name type found) init.location

def ret (value : Expr) (p : Location) : StateM Walk Unit := do
  let found ← infer value
  match (← get).returns with
  | none => return ()
  | some expected =>
    unless Ty.accepts expected found do report (.returned expected found) p

mutual
def visit : Stmt → StateM Walk Unit
  | .declareVar name type init p => do
    if ← declare fun t => t.declareVariable name type p then initializer name type init
  | .declareFun name returns params body p => do
    if ← declare fun t => t.declareFunction name ⟨returns, params.map Param.type⟩ p then
      returning returns (framed do
        params.forM parameter
        framed (visitAll body))
  | .block body _ => framed (visitAll body)
  | .branch e thenBody none _ => do
    condition .ifBranch e
    visit thenBody
  | .branch e thenBody (some elseBody) _ => do
    condition .ifBranch e
    visit thenBody
    visit elseBody
  | .whileLoop e body _ => do
    condition .whileLoop e
    visit body
  | .forLoop init e update body _ => do
    clause init evaluate
    clause e (condition .forLoop)
    clause update evaluate
    visit body
  | .ret value p => ret value p
  | .print value _ => evaluate value
  | .expr value _ => evaluate value

def visitAll : List Stmt → StateM Walk Unit
  | [] => return ()
  | s :: rest => do
    visit s
    visitAll rest
end

end Walk

structure Analysis where
  symbols : SymbolTable
  diagnostics : List Diagnostic
  types : List (Nat × Ty)
deriving DecidableEq, Repr

namespace Analysis

/-- What a walk has come to, in the order in which it was found. -/
def ofWalk (w : Walk) : Analysis :=
  ⟨w.symbols, w.findings.diagnostics.reverse, w.findings.types.reverse⟩

def ofProgram (p : Program) : Analysis := ofWalk ((Walk.visitAll p).run Walk.start).2

variable (a : Analysis)

def isOk : Bool := a.diagnostics.isEmpty

/-- The type of the expression with a given number, if the check came to it. -/
def typeOf? (id : Nat) : Option Ty := a.types.lookup id

/-- The recorded types by the numbers of their expressions. -/
def typesById : List (Nat × Ty) := a.types.mergeSort fun x y => x.1 ≤ y.1

end Analysis
end MiniCheck
