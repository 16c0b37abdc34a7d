import MiniCheck.Proofs.Grammar.Locality

/-!
# The parser looks no further than the next token

Every part of the parser is put together from readers that look no further.
-/

namespace MiniCheck
namespace Grammar

open Token (Kind)
open Grammar.Parser

namespace Local

variable {α : Type}

/-! ## Expressions -/

theorem chain {n : Nat} {operand : Parser Expr} (h : Local operand) :
    ∀ bound left, Local (chain n operand bound left)
  | [], left => .pure left
  | _ :: bound, left => by
    simp only [Grammar.chain]
    refine peek.bind fun k => ?_
    split
    · exact .pure left
    · exact here.bind fun p => skip.bind fun _ => h.bind fun right => (fresh p).bind fun m =>
        chain h bound _

theorem operation {operand : Parser Expr} (h : Local operand) :
    ∀ n, Local (operation operand n)
  | 0 => h
  | n + 1 => by
    simp only [Grammar.operation]
    refine (operation h n).bind fun left => ?_
    apply of_bound
    · exact fun bound => (operation h n).chain bound left
    · exact fun bound bound' c => chain_bound (operation h n) bound bound' left c

theorem list {item : Parser α} (h : Local item) : Local (remaining >>= Parser.separated item) :=
  of_bound h.separated (separated_bound h)

theorem arguments {expr : Parser Expr} (h : Local expr) : Local (arguments expr) := by
  unfold Grammar.arguments
  exact peek.bind fun _ => .ite (.pure []) h.list

theorem named {expr : Parser Expr} (h : Local expr) : Local (named expr) := by
  unfold Grammar.named
  refine (expect .name _).bind fun name => (accept .equal).bind fun _ => .ite ?_ ?_
  · exact h.bind fun value => (fresh _).bind fun m => .pure _
  · refine (accept .leftParen).bind fun _ => .ite ?_ ?_
    · exact h.arguments.bind fun args => (expect .rightParen _).bind fun _ =>
        (fresh _).bind fun m => .pure _
    · exact (fresh _).bind fun m => .pure _

theorem operand : ∀ depth, Local (operand depth)
  | 0 => .fail [] _
  | depth + 1 => by
    have hoperand := operand depth
    have hexpr := hoperand.operation BinaryOp.topLevel
    have hsigned : ∀ op, Local (signed op (Grammar.operand depth)) := fun op =>
      here.bind fun p => skip.bind fun _ => hoperand.bind fun e => (fresh p).bind fun m => .pure _
    simp only [Grammar.operand]
    refine peek.bind fun k => ?_
    split
    · exact hsigned .not
    · exact hsigned .neg
    · exact skip.bind fun _ => hexpr.bind fun e => (expect .rightParen _).bind fun _ => .pure e
    · exact (expect .number _).bind fun t => (fresh _).bind fun m => .pure _
    · exact hexpr.named
    · exact .fail _ _

theorem expression (depth : Nat) : Local (expression depth) :=
  (operand depth).operation BinaryOp.topLevel

/-! ## Declarations and statements -/

theorem baseType : Local baseType := by
  unfold Grammar.baseType
  refine peek.bind fun k => ?_
  split
  · exact skip.bind fun _ => .pure _
  · exact skip.bind fun _ => .pure _
  · exact skip.bind fun _ => .pure _
  · exact .fail _ _

theorem parameter : Local parameter :=
  baseType.bind fun _ => (expect .name _).bind fun _ => .pure _

theorem parameters : Local parameters := by
  unfold Grammar.parameters
  exact peek.bind fun _ => .ite parameter.list (.pure [])

theorem functionTail {body : Parser (List Stmt)} (h : Local body) (type : BaseType) (name : Token) :
    Local (functionTail body type name) :=
  parameters.bind fun _ => (expect .rightParen _).bind fun _ => (expect .leftBrace _).bind
    fun _ => h.bind fun _ => (expect .rightBrace _).bind fun _ => .pure _

theorem declarators {expr : Parser Expr} (h : Local expr) (type : BaseType) :
    ∀ bound name, Local (declarators expr type bound name)
  | [], name => by
    rw [declarators_nil]
    exact h.optionally.bind fun init => .pure _
  | b :: bound, name => by
    rw [declarators_cons]
    exact h.optionally.bind fun init => (accept .comma).bind fun _ =>
      .ite ((expect .name _).bind fun next => (declarators h type bound next).bind fun rest =>
        .pure _) (.pure _)

theorem declaration {expr : Parser Expr} {body : Parser (List Stmt)} (hexpr : Local expr)
    (hbody : Local body) : Local (declaration expr body) := by
  unfold Grammar.declaration
  refine baseType.bind fun type => (expect .name _).bind fun name => (accept .leftParen).bind
    fun _ => .ite ?_ ?_
  · exact (functionTail hbody type name).bind fun s => .pure _
  · have hlist : Local (remaining >>= fun bound => Grammar.declarators expr type bound name) :=
      of_bound (fun bound => hexpr.declarators type bound name)
        (fun bound bound' => declarators_bound hexpr bound bound' name)
    have hall := hlist.bind fun declared =>
      (expect .semicolon "after variable declaration").bind fun _ => pure declared
    rwa [bind_assoc] at hall

theorem itemsWithin {declaration : Parser (List Stmt)} {statement : Parser Stmt}
    (hdecl : Local declaration) (hstmt : Local statement) :
    ∀ bound, Local (itemsWithin declaration statement bound)
  | [] => .pure []
  | b :: bound => by
    have ih := itemsWithin hdecl hstmt bound
    simp only [Grammar.itemsWithin]
    refine peek.bind fun k => remaining_bind ?_ fun r => .ite (.pure []) (.ite ?_ ?_)
    · intro r r' hr
      simp only [hr]
    · exact hdecl.bind fun declared => ih.bind fun rest => .pure _
    · exact (accept .semicolon).bind fun _ =>
        .ite ih (hstmt.bind fun s => ih.bind fun rest => .pure _)

theorem items {declaration : Parser (List Stmt)} {statement : Parser Stmt}
    (hdecl : Local declaration) (hstmt : Local statement) (hadvD : Advances declaration)
    (hadvS : Advances statement) : Local (items declaration statement) :=
  of_bound (itemsWithin hdecl hstmt) (itemsWithin_bound hadvD hadvS)

theorem clause {expr : Parser Expr} (h : Local expr) (terminator : Kind) :
    Local (clause expr terminator) := by
  unfold Grammar.clause
  exact peek.bind fun _ => .ite (here.bind fun p => (fresh p).bind fun m => .pure _) h

theorem ended {expr : Parser Expr} (h : Local expr) (terminator : Kind) (context : String) :
    Local (ended expr terminator context) :=
  (h.clause terminator).bind fun _ => (expect terminator _).bind fun _ => .pure _

theorem enclosed {expr : Parser Expr} (h : Local expr) (before behind : String) :
    Local (enclosed expr before behind) :=
  (expect .leftParen _).bind fun _ => h.bind fun _ => (expect .rightParen _).bind fun _ => .pure _

theorem branch {expr : Parser Expr} {statement : Parser Stmt} (hexpr : Local expr)
    (hstmt : Local statement) (p : Location) : Local (branch expr statement p) := by
  rw [branch_eq]
  exact skip.bind fun _ => (hexpr.enclosed _ _).bind fun condition => hstmt.bind fun thenBody =>
    hstmt.optionally.bind fun elseBody => .pure _

theorem whileLoop {expr : Parser Expr} {statement : Parser Stmt} (hexpr : Local expr)
    (hstmt : Local statement) (p : Location) : Local (whileLoop expr statement p) := by
  rw [whileLoop_eq]
  exact skip.bind fun _ => (hexpr.enclosed _ _).bind fun condition => hstmt.bind fun body => .pure _

theorem forLoop {expr : Parser Expr} {statement : Parser Stmt} (hexpr : Local expr)
    (hstmt : Local statement) (p : Location) : Local (forLoop expr statement p) := by
  rw [forLoop_eq]
  exact skip.bind fun _ => (expect .leftParen _).bind fun _ => (hexpr.ended _ _).bind fun init =>
    (hexpr.ended _ _).bind fun condition => (hexpr.ended _ _).bind fun update =>
      hstmt.bind fun body => .pure _

theorem ret {expr : Parser Expr} (h : Local expr) (p : Location) : Local (ret expr p) := by
  rw [ret_eq]
  exact skip.bind fun _ => (h.ended _ _).bind fun value => .pure _

theorem print {expr : Parser Expr} (h : Local expr) (p : Location) : Local (print expr p) := by
  rw [print_eq]
  exact skip.bind fun _ => (h.enclosed _ _).bind fun value => (expect .semicolon _).bind fun _ =>
    .pure _

theorem statementWith {expr : Parser Expr} {declaration : Parser (List Stmt)}
    {statement : Parser Stmt} (hexpr : Local expr) (hdecl : Local declaration)
    (hstmt : Local statement) (hadvD : Advances declaration) (hadvS : Advances statement) :
    Local (statementWith expr declaration statement) := by
  unfold Grammar.statementWith
  refine here.bind fun p => peek.bind fun k => ?_
  split
  · exact hdecl.map _
  · exact hdecl.map _
  · exact hdecl.map _
  · exact skip.bind fun _ => (fresh p).bind fun m => .pure _
  · exact skip.bind fun _ => (items hdecl hstmt hadvD hadvS).bind fun body =>
      (expect .rightBrace _).bind fun _ => .pure _
  · exact branch hexpr hstmt p
  · exact whileLoop hexpr hstmt p
  · exact forLoop hexpr hstmt p
  · exact ret hexpr p
  · exact print hexpr p
  · exact hexpr.bind fun value => (expect .semicolon _).bind fun _ => .pure _

end Local

theorem advances_operation (depth n : Nat) : Advances (operation (operand depth) n) := by
  rintro ⟨ts, i, f⟩ e d hrun
  obtain ⟨D, r, rfl, _, _, rfl⟩ := (reads_operation (reads_operand depth) n ts i f e d).mp hrun
  have hpos := D.length_pos
  simp only [List.length_append]
  omega

theorem advances_declaration (depth : Nat) :
    Advances (declaration (expression depth) (functionBody depth)) := by
  rintro ⟨ts, i, f⟩ declared d hrun
  obtain ⟨D, r, rfl, _, _, rfl⟩ := (reads_declarations_of_depth depth).sound hrun
  have hpos := List.length_pos_iff.mpr D.tokens_ne_nil_of_declaration
  simp only [List.length_append]
  omega

theorem advances_statement (depth : Nat) : Advances (statement depth) := by
  rintro ⟨ts, i, f⟩ s d hrun
  obtain ⟨D, r, rfl, _, _, rfl⟩ := (reads_statement_and_body depth).1.sound hrun
  have hpos := List.length_pos_iff.mpr D.tokens_ne_nil_of_statement
  simp only [List.length_append]
  omega

theorem local_statement_and_body : ∀ depth : Nat,
    Local (statement depth) ∧ Local (functionBody depth)
  | 0 => by
    constructor
    · rw [statement]
      exact .fail _ _
    · rw [functionBody]
      exact .fail _ _
  | depth + 1 => by
    obtain ⟨hstmt, hbody⟩ := local_statement_and_body depth
    have hdecl := (Local.expression depth).declaration hbody
    have hadvD := advances_declaration depth
    have hadvS := advances_statement depth
    constructor
    · rw [statement]
      exact .statementWith (.expression depth) hdecl hstmt hadvD hadvS
    · rw [functionBody]
      exact .items hdecl hstmt hadvD hadvS

theorem local_declarations {declaration : Parser (List Stmt)} (h : Local declaration) :
    ∀ bound, Local (declarations declaration bound)
  | [] => .pure []
  | _ :: bound => by
    simp only [declarations]
    exact Local.peek.bind fun k => .ite
      (h.bind fun declared => (local_declarations h bound).bind fun rest => .pure _) (.pure [])

/-- Whether and how a list of tokens fails to be a program is settled at the token where it
does. -/
theorem local_program : Local program := by
  have hdecl := (Local.expression maxNesting).declaration (local_statement_and_body maxNesting).2
  have hlist := Local.of_bound (local_declarations hdecl)
    (declarations_bound (advances_declaration maxNesting))
  have hall := hlist.bind fun nodes => Local.remaining_bind
    (g := fun rest => if rest.isEmpty then pure nodes
      else fail [.intWord, .floatWord, .voidWord, .eof] "at top level")
    (fun r r' hr => by simp only [hr]) fun r => .ite (.pure nodes) (.fail _ _)
  rwa [bind_assoc] at hall

end Grammar
end MiniCheck
