import MiniCheck.Proofs.Grammar.CommandReading
import MiniCheck.Proofs.Grammar.Relabelling

/-!
# The parser never looks at places or numbers

Every part of the parser is put together from readers that look at neither. Tokens that
differ in their places alone make up programs that do too, or fail to in the same way.
-/

namespace MiniCheck
namespace Grammar

open Token (Kind)
open Grammar.Parser

theorem declared_relabel (r : Relabelling) (p : Location) (ss : List Stmt) :
    declared (r.place p) (relabel r ss) = relabel r (declared p ss) := by
  cases ss with
  | nil => rfl
  | cons s rest =>
    cases rest with
    | nil => rfl
    | cons s' rest => exact (relabel_block r (s :: s' :: rest) p).symm

namespace Mirrors

variable {r : Relabelling} {α : Type} [Labelled α]

theorem optionally {k : Kind} {x y : Parser α} (h : Mirrors r x y) :
    Mirrors r (optionally k x) (Parser.optionally k y) :=
  (accept k).bind fun _ => .ite (h.map fun _ => rfl) (.pure none)

/-! ## Declarations -/

theorem baseType : Mirrors r baseType Grammar.baseType := by
  refine peek.bind fun k => ?_
  cases k
  case intWord => exact skip.bind fun _ => .pure BaseType.int
  case floatWord => exact skip.bind fun _ => .pure BaseType.float
  case voidWord => exact skip.bind fun _ => .pure BaseType.void
  all_goals exact .fail _ _

theorem parameters : Mirrors r parameters Grammar.parameters := by
  have hparameter : Mirrors r parameter parameter :=
    baseType.bind fun type => (expect .name _).bind fun name =>
      .pure (Param.mk name.lexeme type name.location)
  exact peek.bind fun _ => .ite (remaining.bind fun ts => hparameter.separated ts) (.pure [])

theorem functionTail {body body' : Parser (List Stmt)} (h : Mirrors r body body') (type : BaseType)
    (name : Token) :
    Mirrors r (functionTail body type name) (Grammar.functionTail body' type (relabel r name)) :=
  parameters.bind fun params => (expect .rightParen _).bind fun _ =>
    (expect .leftBrace _).bind fun _ => h.bind fun statements =>
      (expect .rightBrace _).bind fun _ =>
        .pure_of_eq (relabel_declareFun r name.lexeme type params statements name.location)

theorem declarators {expr expr' : Parser Expr} (h : Mirrors r expr expr') (type : BaseType)
    (bound : List Token) (name : Token) :
    Mirrors r (declarators expr type bound name)
      (Grammar.declarators expr' type (relabel r bound) (relabel r name)) := by
  induction bound generalizing name with
  | nil =>
    rw [relabel_nil, declarators_nil, declarators_nil]
    exact h.optionally.bind fun init =>
      .pure [Stmt.declareVar name.lexeme type init name.location]
  | cons b bound ih =>
    rw [relabel_cons, declarators_cons, declarators_cons]
    refine h.optionally.bind fun init => (accept .comma).bind fun _ => .ite ?_ ?_
    · exact (expect .name _).bind fun next => (ih next).bind fun rest =>
        .pure (Stmt.declareVar name.lexeme type init name.location :: rest)
    · exact .pure [Stmt.declareVar name.lexeme type init name.location]

theorem declaration {expr expr' : Parser Expr} {body body' : Parser (List Stmt)}
    (hexpr : Mirrors r expr expr') (hbody : Mirrors r body body') :
    Mirrors r (declaration expr body) (Grammar.declaration expr' body') := by
  refine baseType.bind fun type => (expect .name _).bind fun name => (accept .leftParen).bind
    fun _ => .ite ?_ ?_
  · exact (functionTail hbody type name).bind fun s => .pure [s]
  · exact remaining.bind fun ts => (hexpr.declarators type ts name).bind fun declared =>
      (expect .semicolon _).bind fun _ => .pure declared

/-! ## Statements -/

theorem itemsWithin {declaration declaration' : Parser (List Stmt)}
    {statement statement' : Parser Stmt} (hdecl : Mirrors r declaration declaration')
    (hstmt : Mirrors r statement statement') (bound : List Token) :
    Mirrors r (itemsWithin declaration statement bound)
      (Grammar.itemsWithin declaration' statement' (relabel r bound)) := by
  induction bound with
  | nil => exact .pure []
  | cons b bound ih =>
    refine peek.bind fun k => remaining.bind fun ts => ?_
    have hempty : (relabel r ts).isEmpty = ts.isEmpty := List.isEmpty_map
    rw [hempty]
    refine .ite (.pure []) (.ite ?_ ?_)
    · exact hdecl.bind fun declared => ih.bind fun rest =>
        .pure_of_eq (relabel_append r declared rest)
    · exact (accept .semicolon).bind fun _ =>
        .ite ih (hstmt.bind fun s => ih.bind fun rest => .pure (s :: rest))

theorem items {declaration declaration' : Parser (List Stmt)} {statement statement' : Parser Stmt}
    (hdecl : Mirrors r declaration declaration') (hstmt : Mirrors r statement statement') :
    Mirrors r (items declaration statement) (Grammar.items declaration' statement') :=
  remaining.bind fun ts => hdecl.itemsWithin hstmt ts

theorem enclosed {expr expr' : Parser Expr} (h : Mirrors r expr expr') (before behind : String) :
    Mirrors r (enclosed expr before behind) (Grammar.enclosed expr' before behind) :=
  (expect .leftParen _).bind fun _ => h.bind fun value => (expect .rightParen _).bind fun _ =>
    .pure value

theorem branch {expr expr' : Parser Expr} {statement statement' : Parser Stmt}
    (hexpr : Mirrors r expr expr') (hstmt : Mirrors r statement statement') (p : Location) :
    Mirrors r (branch expr statement p) (Grammar.branch expr' statement' (r.place p)) := by
  rw [branch_eq, branch_eq]
  exact skip.bind fun _ => (hexpr.enclosed _ _).bind fun condition => hstmt.bind fun thenBody =>
    hstmt.optionally.bind fun elseBody =>
      .pure_of_eq (relabel_branch r condition thenBody elseBody p)

theorem whileLoop {expr expr' : Parser Expr} {statement statement' : Parser Stmt}
    (hexpr : Mirrors r expr expr') (hstmt : Mirrors r statement statement') (p : Location) :
    Mirrors r (whileLoop expr statement p) (Grammar.whileLoop expr' statement' (r.place p)) := by
  rw [whileLoop_eq, whileLoop_eq]
  exact skip.bind fun _ => (hexpr.enclosed _ _).bind fun condition => hstmt.bind fun body =>
    .pure (Stmt.whileLoop condition body p)

theorem print {expr expr' : Parser Expr} (h : Mirrors r expr expr') (p : Location) :
    Mirrors r (print expr p) (Grammar.print expr' (r.place p)) := by
  rw [print_eq, print_eq]
  exact skip.bind fun _ => (h.enclosed _ _).bind fun value => (expect .semicolon _).bind fun _ =>
    .pure (Stmt.print value p)

section Numbered

variable (hr : r.Counts)
include hr

theorem clause {expr expr' : Parser Expr} (h : Mirrors r expr expr') (terminator : Kind) :
    Mirrors r (clause expr terminator) (Grammar.clause expr' terminator) :=
  peek.bind fun _ => .ite
    (here.bind fun p => (fresh hr p).bind fun m => .pure (Expr.omitted m)) h

theorem ended {expr expr' : Parser Expr} (h : Mirrors r expr expr') (terminator : Kind)
    (context : String) :
    Mirrors r (ended expr terminator context) (Grammar.ended expr' terminator context) :=
  (clause hr h terminator).bind fun value => (expect terminator _).bind fun _ => .pure value

theorem forLoop {expr expr' : Parser Expr} {statement statement' : Parser Stmt}
    (hexpr : Mirrors r expr expr') (hstmt : Mirrors r statement statement') (p : Location) :
    Mirrors r (forLoop expr statement p) (Grammar.forLoop expr' statement' (r.place p)) := by
  rw [forLoop_eq, forLoop_eq]
  exact skip.bind fun _ => (expect .leftParen _).bind fun _ => (ended hr hexpr _ _).bind fun init =>
    (ended hr hexpr _ _).bind fun condition => (ended hr hexpr _ _).bind fun update =>
      hstmt.bind fun body => .pure (Stmt.forLoop init condition update body p)

theorem ret {expr expr' : Parser Expr} (h : Mirrors r expr expr') (p : Location) :
    Mirrors r (ret expr p) (Grammar.ret expr' (r.place p)) := by
  rw [ret_eq, ret_eq]
  exact skip.bind fun _ => (ended hr h _ _).bind fun value => .pure (Stmt.ret value p)

theorem statementWith {expr expr' : Parser Expr} {declaration declaration' : Parser (List Stmt)}
    {statement statement' : Parser Stmt} (hexpr : Mirrors r expr expr')
    (hdecl : Mirrors r declaration declaration') (hstmt : Mirrors r statement statement') :
    Mirrors r (statementWith expr declaration statement)
      (Grammar.statementWith expr' declaration' statement') := by
  refine here.bind fun p => peek.bind fun k => ?_
  have hdeclared : Mirrors r (Grammar.declared p <$> declaration)
      (Grammar.declared (r.place p) <$> declaration') := hdecl.map (declared_relabel r p)
  cases k
  case intWord => exact hdeclared
  case floatWord => exact hdeclared
  case voidWord => exact hdeclared
  case semicolon =>
    exact skip.bind fun _ => (fresh hr p).bind fun m => .pure (Stmt.expr (.omitted m) p)
  case leftBrace =>
    exact skip.bind fun _ => (hdecl.items hstmt).bind fun body =>
      (expect .rightBrace _).bind fun _ => .pure_of_eq (relabel_block r body p)
  case ifWord => exact hexpr.branch hstmt p
  case whileWord => exact hexpr.whileLoop hstmt p
  case forWord => exact forLoop hr hexpr hstmt p
  case returnWord => exact ret hr hexpr p
  case printWord => exact hexpr.print p
  all_goals
    exact hexpr.bind fun value => (expect .semicolon _).bind fun _ => .pure (Stmt.expr value p)

theorem statement_and_body (depth : Nat) :
    Mirrors r (statement depth) (statement depth) ∧
      Mirrors r (functionBody depth) (functionBody depth) := by
  induction depth with
  | zero =>
    rw [statement, functionBody]
    exact ⟨.fail _ _, .fail _ _⟩
  | succ depth ih =>
    obtain ⟨hstmt, hbody⟩ := ih
    have hexpr := expression hr depth
    have hdecl := hexpr.declaration hbody
    rw [statement, functionBody]
    exact ⟨statementWith hr hexpr hdecl hstmt, hdecl.items hstmt⟩

end Numbered

/-! ## Programs -/

theorem declarations {declaration declaration' : Parser (List Stmt)}
    (h : Mirrors r declaration declaration') (bound : List Token) :
    Mirrors r (declarations declaration bound)
      (Grammar.declarations declaration' (relabel r bound)) := by
  induction bound with
  | nil => exact .pure []
  | cons b bound ih =>
    exact peek.bind fun k => .ite (h.bind fun declared => ih.bind fun rest =>
      .pure_of_eq (relabel_append r declared rest)) (.pure [])

theorem program (hr : r.Counts) : Mirrors r program Grammar.program := by
  have hdecl := (expression hr maxNesting).declaration (statement_and_body hr maxNesting).2
  refine remaining.bind fun ts => (hdecl.declarations ts).bind fun nodes =>
    remaining.bind fun rest => ?_
  have hempty : (relabel r rest).isEmpty = rest.isEmpty := List.isEmpty_map
  rw [hempty]
  exact .ite (.pure nodes) (.fail _ _)

end Mirrors
end Grammar

namespace Program

open Grammar

variable {ts us : List Token}

/-- What a reader of programs answers, without the cursor that it leaves. -/
def outcome : EStateM.Result Mismatch Cursor (List Stmt) → Except Mismatch Program
  | .ok nodes _ => .ok nodes
  | .error m _ => .error m

/-- Tokens that differ in their places alone make up programs that do too, or fail to with
errors that do. -/
theorem unplaced_ofTokens_eq (h : relabel .unplaced ts = relabel .unplaced us) :
    relabel .unplaced (ofTokens ts) = relabel .unplaced (ofTokens us) := by
  have hcursor : relabel .unplaced (Cursor.ofTokens ts) = relabel .unplaced (Cursor.ofTokens us) :=
    congrArg (fun rest => Cursor.mk rest 0 .first) h
  have hmirrors := Mirrors.program Relabelling.counts_unplaced
  have hprogram : relabel .unplaced (Grammar.program (.ofTokens ts)) =
      relabel .unplaced (Grammar.program (.ofTokens us)) := by
    rw [← hmirrors, ← hmirrors, hcursor]
  have houtcome : ∀ vs, relabel .unplaced (ofTokens vs) =
      outcome (relabel .unplaced (Grammar.program (.ofTokens vs))) := by
    intro vs
    unfold ofTokens
    cases Grammar.program (.ofTokens vs) with
    | ok nodes c => rfl
    | error m c => rfl
  rw [houtcome, houtcome, hprogram]

end Program
end MiniCheck
