import MiniCheck.Tree.Basic
import MiniCheck.Typing.SymbolTable

/-!
# Typing rules

When a program is well typed, said without a check that carries on after a mistake:
every expression has one of four types, and no type is unknown.

A scope has frames of variables, the innermost first, and the functions that have been
declared so far. What a frame holds goes away with it, functions do not. The judgements
also list the numbers of the expressions that they type, with their types, in the order
in which a reader of the program comes to the end of them.
-/

namespace MiniCheck
namespace Typing

inductive ValueTy
  | int
  | float
  | void
  | bool
deriving DecidableEq, Repr

namespace ValueTy

def ofBase : BaseType → ValueTy
  | .int => int
  | .float => float
  | .void => void

def toTy : ValueTy → Ty
  | int => .int
  | float => .float
  | void => .void
  | bool => .bool

inductive Numeric : ValueTy → Prop
  | int : Numeric int
  | float : Numeric float

/-- Whether a value of type `found` may stand where `target` is expected. -/
inductive Fits (target : BaseType) : ValueTy → Prop
  | same : Fits target (ofBase target)
  | widened (h : target = .float) : Fits target int

/-- Anything but `void` can be tested. -/
def Tests (t : ValueTy) : Prop := t ≠ void

/-- The types of the two operands of an operation and of its result. -/
inductive Operates : BinaryOp → ValueTy → ValueTy → ValueTy → Prop
  | integers {op : BinaryOp} (h : op ∈ [.add, .sub, .mul, .div, .mod]) : Operates op int int int
  | floatLeft {op : BinaryOp} {right : ValueTy} (h : op ∈ [.add, .sub, .mul, .div, .mod])
      (hright : right.Numeric) : Operates op float right float
  | floatRight {op : BinaryOp} {left : ValueTy} (h : op ∈ [.add, .sub, .mul, .div, .mod])
      (hleft : left.Numeric) : Operates op left float float
  | comparison {op : BinaryOp} {left right : ValueTy} (h : op ∈ [.eq, .ne, .lt, .le, .gt, .ge])
      (hleft : left.Numeric) (hright : right.Numeric) : Operates op left right bool
  | logic {op : BinaryOp} {left right : ValueTy} (h : op ∈ [.and, .or]) :
      Operates op left right bool

end ValueTy

/-- Variables by frames, the innermost first, and functions. -/
structure Scope where
  frames : List (String → Option BaseType)
  functions : String → Option Signature

namespace Scope

/-- Nothing is declared, and global variables can be. -/
def start : Scope := ⟨[fun _ => none], fun _ => none⟩

/-- The type of a variable by its innermost declaration. -/
inductive Holds (name : String) (type : BaseType) : List (String → Option BaseType) → Prop
  | here {frame : String → Option BaseType} {frames : List (String → Option BaseType)}
      (h : frame name = some type) : Holds name type (frame :: frames)
  | outer {frame : String → Option BaseType} {frames : List (String → Option BaseType)}
      (h : frame name = none) (hrest : Holds name type frames) : Holds name type (frame :: frames)

variable (Γ : Scope)

def HasVariable (name : String) (type : BaseType) : Prop := Holds name type Γ.frames

/-- The innermost frame has no variable of that name. -/
def Fresh (name : String) : Prop := ∀ frame ∈ Γ.frames.head?, frame name = none

def push : Scope := { Γ with frames := (fun _ => none) :: Γ.frames }

/-- Adds a variable to the innermost frame. -/
def bind (name : String) (type : BaseType) : Scope :=
  match Γ.frames with
  | [] => Γ
  | frame :: frames =>
    { Γ with frames := (fun other => if other = name then some type else frame other) :: frames }

def addFunction (name : String) (signature : Signature) : Scope :=
  { Γ with functions := fun other => if other = name then some signature else Γ.functions other }

/-- The scope behind a part of the program that had frames of its own inside `Γ`. -/
def leave (inside : Scope) : Scope := ⟨Γ.frames, inside.functions⟩

end Scope

/-- Expressions with their types. -/
abbrev Types := List (Nat × ValueTy)

open ValueTy

mutual
/-- `HasType Γ e t types`: in the scope `Γ` the expression `e` is of type `t`. -/
inductive HasType (Γ : Scope) : Expr → ValueTy → Types → Prop
  | binary {op : BinaryOp} {left right : Expr} {m : Mark} {l r t : ValueTy} {ns ns' : Types}
      (hleft : HasType Γ left l ns) (hright : HasType Γ right r ns') (h : Operates op l r t) :
      HasType Γ (.binary op left right m) t (ns ++ ns' ++ [(m.id, t)])
  | not {operand : Expr} {m : Mark} {t : ValueTy} {ns : Types} (h : HasType Γ operand t ns) :
      HasType Γ (.unary .not operand m) bool (ns ++ [(m.id, bool)])
  | neg {operand : Expr} {m : Mark} {t : ValueTy} {ns : Types} (h : HasType Γ operand t ns)
      (hnumeric : t.Numeric) : HasType Γ (.unary .neg operand m) t (ns ++ [(m.id, t)])
  | assign {name : String} {value : Expr} {m : Mark} {type : BaseType} {t : ValueTy} {ns : Types}
      (hname : Γ.HasVariable name type) (h : HasType Γ value t ns) (hfits : Fits type t) :
      HasType Γ (.assign name value m) (ofBase type) (ns ++ [(m.id, ofBase type)])
  | var {name : String} {m : Mark} {type : BaseType} (hname : Γ.HasVariable name type) :
      HasType Γ (.var name m) (ofBase type) [(m.id, ofBase type)]
  | integer {lexeme : String} {m : Mark} (h : '.' ∉ lexeme.toList) :
      HasType Γ (.number lexeme m) int [(m.id, int)]
  | decimal {lexeme : String} {m : Mark} (h : '.' ∈ lexeme.toList) :
      HasType Γ (.number lexeme m) float [(m.id, float)]
  | omitted {m : Mark} : HasType Γ (.omitted m) void [(m.id, void)]
  | call {name : String} {args : List Expr} {m : Mark} {signature : Signature} {ns : Types}
      (hname : Γ.functions name = some signature) (h : HaveTypes Γ args signature.params ns) :
      HasType Γ (.call name args m) (ofBase signature.returns)
        (ns ++ [(m.id, ofBase signature.returns)])

/-- Arguments fit the parameters they stand for, one for each. -/
inductive HaveTypes (Γ : Scope) : List Expr → List BaseType → Types → Prop
  | nil : HaveTypes Γ [] [] []
  | cons {arg : Expr} {args : List Expr} {param : BaseType} {params : List BaseType} {t : ValueTy}
      {ns ns' : Types} (h : HasType Γ arg t ns) (hfits : Fits param t)
      (hrest : HaveTypes Γ args params ns') : HaveTypes Γ (arg :: args) (param :: params) (ns ++ ns')
end

/-- A clause that is omitted may be anything. -/
inductive ClauseTyped (Γ : Scope) (Allowed : ValueTy → Prop) : Expr → Types → Prop
  | omitted {m : Mark} : ClauseTyped Γ Allowed (.omitted m) []
  | given {e : Expr} {t : ValueTy} {ns : Types} (hgiven : e.isOmitted = false)
      (h : HasType Γ e t ns) (hallowed : Allowed t) : ClauseTyped Γ Allowed e ns

/-- The parameters of a function as variables, no two of one name. -/
inductive ParametersBound : Scope → List Param → Scope → Prop
  | nil {Γ : Scope} : ParametersBound Γ [] Γ
  | cons {Γ Δ : Scope} {p : Param} {ps : List Param} (hfresh : Γ.Fresh p.name)
      (hrest : ParametersBound (Γ.bind p.name p.type) ps Δ) : ParametersBound Γ (p :: ps) Δ

mutual
/-- `WellTyped ρ Γ s Δ types`: inside a function that returns `ρ`, or outside any, the
statement `s` is well typed where `Γ` is in scope, and leaves `Δ` in scope. -/
inductive WellTyped : Option BaseType → Scope → Stmt → Scope → Types → Prop
  | declare {ρ : Option BaseType} {Γ : Scope} {name : String} {type : BaseType} {p : Location}
      (hfresh : Γ.Fresh name) :
      WellTyped ρ Γ (.declareVar name type none p) (Γ.bind name type) []
  | declareInit {ρ : Option BaseType} {Γ : Scope} {name : String} {type : BaseType} {e : Expr}
      {p : Location} {t : ValueTy} {ns : Types} (hfresh : Γ.Fresh name)
      (h : HasType (Γ.bind name type) e t ns) (hfits : Fits type t) :
      WellTyped ρ Γ (.declareVar name type (some e) p) (Γ.bind name type) ns
  | function {ρ : Option BaseType} {Γ Δ Ε : Scope} {name : String} {returns : BaseType}
      {params : List Param} {body : List Stmt} {p : Location} {ns : Types}
      (hname : Γ.functions name = none)
      (hparams : ParametersBound (Γ.addFunction name ⟨returns, params.map Param.type⟩).push params Δ)
      (hbody : AllWellTyped (some returns) Δ.push body Ε ns) :
      WellTyped ρ Γ (.declareFun name returns params body p) (Γ.leave Ε) ns
  | block {ρ : Option BaseType} {Γ Δ : Scope} {body : List Stmt} {p : Location} {ns : Types}
      (h : AllWellTyped ρ Γ.push body Δ ns) : WellTyped ρ Γ (.block body p) (Γ.leave Δ) ns
  | branch {ρ : Option BaseType} {Γ Δ : Scope} {e : Expr} {thenBody : Stmt} {p : Location}
      {t : ValueTy} {ns ns' : Types} (h : HasType Γ e t ns) (htests : t.Tests)
      (hthen : WellTyped ρ Γ thenBody Δ ns') :
      WellTyped ρ Γ (.branch e thenBody none p) Δ (ns ++ ns')
  | branchElse {ρ : Option BaseType} {Γ Δ Ε : Scope} {e : Expr} {thenBody elseBody : Stmt}
      {p : Location} {t : ValueTy} {ns ns' ns'' : Types} (h : HasType Γ e t ns) (htests : t.Tests)
      (hthen : WellTyped ρ Γ thenBody Δ ns') (helse : WellTyped ρ Δ elseBody Ε ns'') :
      WellTyped ρ Γ (.branch e thenBody (some elseBody) p) Ε (ns ++ ns' ++ ns'')
  | whileLoop {ρ : Option BaseType} {Γ Δ : Scope} {e : Expr} {body : Stmt} {p : Location}
      {t : ValueTy} {ns ns' : Types} (h : HasType Γ e t ns) (htests : t.Tests)
      (hbody : WellTyped ρ Γ body Δ ns') : WellTyped ρ Γ (.whileLoop e body p) Δ (ns ++ ns')
  | forLoop {ρ : Option BaseType} {Γ Δ : Scope} {init e update : Expr} {body : Stmt}
      {p : Location} {ns ns' ns'' ns''' : Types}
      (hinit : ClauseTyped Γ (fun _ => True) init ns) (h : ClauseTyped Γ Tests e ns')
      (hupdate : ClauseTyped Γ (fun _ => True) update ns'') (hbody : WellTyped ρ Γ body Δ ns''') :
      WellTyped ρ Γ (.forLoop init e update body p) Δ (ns ++ ns' ++ ns'' ++ ns''')
  | retOutside {Γ : Scope} {value : Expr} {p : Location} {t : ValueTy} {ns : Types}
      (h : HasType Γ value t ns) : WellTyped none Γ (.ret value p) Γ ns
  | ret {Γ : Scope} {returns : BaseType} {value : Expr} {p : Location} {t : ValueTy} {ns : Types}
      (h : HasType Γ value t ns) (hfits : Fits returns t) :
      WellTyped (some returns) Γ (.ret value p) Γ ns
  | print {ρ : Option BaseType} {Γ : Scope} {value : Expr} {p : Location} {t : ValueTy}
      {ns : Types} (h : HasType Γ value t ns) : WellTyped ρ Γ (.print value p) Γ ns
  | expr {ρ : Option BaseType} {Γ : Scope} {value : Expr} {p : Location} {t : ValueTy}
      {ns : Types} (h : HasType Γ value t ns) : WellTyped ρ Γ (.expr value p) Γ ns

/-- Statements one after the other. -/
inductive AllWellTyped : Option BaseType → Scope → List Stmt → Scope → Types → Prop
  | nil {ρ : Option BaseType} {Γ : Scope} : AllWellTyped ρ Γ [] Γ []
  | cons {ρ : Option BaseType} {Γ Δ Ε : Scope} {s : Stmt} {rest : List Stmt} {ns ns' : Types}
      (h : WellTyped ρ Γ s Δ ns) (hrest : AllWellTyped ρ Δ rest Ε ns') :
      AllWellTyped ρ Γ (s :: rest) Ε (ns ++ ns')
end

end Typing
end MiniCheck
