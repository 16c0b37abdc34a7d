import MiniCheck.Proofs.Grammar.ExprWriting
import MiniCheck.Proofs.Grammar.ProgramRelabelling

/-!
# Writing statements

A statement is written with one name to each declaration. Clauses that are omitted are left
out. What is written for a well-formed statement has a settled derivation with the same tree,
wherever the statement may stand.
-/

namespace MiniCheck

open Token (ofKind ofName)

namespace Param

def written (p : Param) : List Token := [ofKind p.type.word, ofName p.name]

def writtenAll : List Param → List Token
  | [] => []
  | [p] => p.written
  | p :: p' :: ps => p.written ++ ofKind .comma :: writtenAll (p' :: ps)

end Param

namespace Stmt

/-- The tokens of an initial value that may be missing. -/
def writtenInit : Option Expr → List Token
  | none => []
  | some value => ofKind .equal :: value.written

mutual
/-- The tokens of a statement. -/
@[simp]
def written : Stmt → List Token
  | declareVar name type init _ =>
    ofKind type.word :: ofName name :: (writtenInit init ++ [ofKind .semicolon])
  | declareFun name returns params body _ =>
    ofKind returns.word :: ofName name :: ofKind .leftParen :: (Param.writtenAll params ++
      ofKind .rightParen :: ofKind .leftBrace :: (writtenAll body ++ [ofKind .rightBrace]))
  | block body _ => ofKind .leftBrace :: (writtenAll body ++ [ofKind .rightBrace])
  | branch e thenBody none _ =>
    ofKind .ifWord :: ofKind .leftParen :: (e.written ++ ofKind .rightParen :: thenBody.written)
  | branch e thenBody (some elseBody) _ =>
    ofKind .ifWord :: ofKind .leftParen :: (e.written ++ ofKind .rightParen ::
      (thenBody.written ++ ofKind .elseWord :: elseBody.written))
  | whileLoop e body _ =>
    ofKind .whileWord :: ofKind .leftParen :: (e.written ++ ofKind .rightParen :: body.written)
  | forLoop init e update body _ =>
    ofKind .forWord :: ofKind .leftParen :: (init.written ++ ofKind .semicolon :: (e.written ++
      ofKind .semicolon :: (update.written ++ ofKind .rightParen :: body.written)))
  | ret value _ => ofKind .returnWord :: (value.written ++ [ofKind .semicolon])
  | print value _ =>
    ofKind .printWord :: ofKind .leftParen ::
      (value.written ++ [ofKind .rightParen, ofKind .semicolon])
  | expr value _ => value.written ++ [ofKind .semicolon]

/-- The tokens of statements one after the other. -/
@[simp]
def writtenAll : List Stmt → List Token
  | [] => []
  | s :: rest => s.written ++ writtenAll rest
end

/-- A declaration in a list opens no nesting level of its own, any other statement one. -/
def itemLevels (s : Stmt) (levels : Nat) : Nat := if s.isDeclaration then levels else levels + 1

mutual
/-- How many nesting levels are open at once at most in what is written, besides the one that
the statement opens itself. -/
@[simp]
def levels : Stmt → Nat
  | declareVar _ _ init _ => (init.map Expr.levels).getD 0
  | declareFun _ _ _ body _ => levelsAll body + 1
  | block body _ => levelsAll body
  | branch e thenBody none _ => max e.levels (thenBody.levels + 1)
  | branch e thenBody (some elseBody) _ =>
    max e.levels (max (thenBody.levels + 1) (elseBody.levels + 1))
  | whileLoop e body _ => max e.levels (body.levels + 1)
  | forLoop init e update body _ =>
    max (max init.levels e.levels) (max update.levels (body.levels + 1))
  | ret value _ => value.levels
  | print value _ => value.levels
  | expr value _ => value.levels

/-- How many nesting levels are open at once at most in what is written for a list. -/
@[simp]
def levelsAll : List Stmt → Nat
  | [] => 0
  | s :: rest => max (s.itemLevels s.levels) (levelsAll rest)
end

end Stmt

namespace Grammar

instance : (r : StmtRule) → Labelled r.Result
  | .statement | .command => inferInstanceAs (Labelled Stmt)
  | .items | .declaration | .program => inferInstanceAs (Labelled (List Stmt))

/-! ## Clauses, initial values and parameters -/

structure Clause.Writes (C : Clause) (e : Expr) : Prop where
  tokens : C.tokens = e.written
  settled : C.Settled
  nesting : C.nesting = e.levels
  tree : ∀ p i, relabel .unmarked (C.tree p i) = relabel .unmarked e

theorem Clause.exists_writes {e : Expr} (h : e.IsClause) : ∃ C : Clause, C.Writes e := by
  rcases h with homitted | hcomplete
  · cases e with
    | omitted m => exact ⟨.omitted, rfl, trivial, rfl, fun _ _ => rfl⟩
    | _ => cases homitted
  · obtain ⟨D, hD⟩ := ExprDerivation.exists_writes e hcomplete
    exact ⟨.given D, hD.tokens, hD.settled, hD.nesting, fun _ => hD.tree⟩

structure Initializer.Writes (I : Initializer) (init : Option Expr) : Prop where
  tokens : I.tokens = Stmt.writtenInit init
  settled : I.Settled
  nesting : I.nesting = (init.map Expr.levels).getD 0
  tree : ∀ i, relabel .unmarked (I.tree i) = relabel .unmarked init

theorem Initializer.exists_writes {init : Option Expr} (h : ∀ value ∈ init, value.Complete) :
    ∃ I : Initializer, I.Writes init := by
  cases init with
  | none => exact ⟨.absent, rfl, trivial, rfl, fun _ => rfl⟩
  | some value =>
    obtain ⟨D, hD⟩ := ExprDerivation.exists_writes value (h value rfl)
    refine ⟨.given ⟨ofKind .equal, rfl⟩ D, ?_, hD.settled, hD.nesting, fun i => ?_⟩
    · rw [tokens, hD.tokens, Stmt.writtenInit]
    · exact congrArg some (hD.tree i)

def TypeWord.ofType (type : BaseType) : TypeWord := ⟨type, ofKind type.word, rfl⟩

theorem Parameters.exists_writes : (ps : List Param) → ps ≠ [] →
    ∃ P : Parameters, P.tokens = Param.writtenAll ps ∧
      relabel .unmarked P.tree = relabel .unmarked ps
  | [], hne => absurd rfl hne
  | [p], _ => ⟨.last (.ofType p.type) ⟨ofName p.name, rfl⟩, rfl, rfl⟩
  | p :: p' :: ps, _ => by
    obtain ⟨P, htokens, htree⟩ := exists_writes (p' :: ps) (List.cons_ne_nil _ _)
    refine ⟨.more (.ofType p.type) ⟨ofName p.name, rfl⟩ ⟨ofKind .comma, rfl⟩ P, ?_, ?_⟩
    · rw [tokens, htokens, Param.writtenAll]
      rfl
    · exact congrArg (List.cons (relabel .unmarked p)) htree

theorem exists_parameters (ps : List Param) :
    ∃ P : Option Parameters, parameterTokens P = Param.writtenAll ps ∧
      relabel .unmarked (parameterTree P) = relabel .unmarked ps := by
  cases ps with
  | nil => exact ⟨none, rfl, rfl⟩
  | cons p ps =>
    obtain ⟨P, htokens, htree⟩ := Parameters.exists_writes (p :: ps) (List.cons_ne_nil _ _)
    exact ⟨some P, htokens, htree⟩

/-! ## Statements -/

/-- The derivation is settled, has the tokens `ts`, opens `levels` nesting levels and dangles
as told. It stands for `t`, except for numbers and places. -/
structure StmtDerivation.Writes {r : StmtRule} (D : StmtDerivation r) (ts : List Token)
    (levels : Nat) (dangles : Bool) (t : r.Result) : Prop where
  tokens : D.tokens = ts
  settled : D.Settled
  nesting : D.nesting = levels
  dangles : D.dangles = dangles
  tree : ∀ i, relabel .unmarked (D.tree i) = relabel .unmarked t

namespace StmtDerivation

attribute [simp] tokens nesting

/-- The derivation writes a statement as the body of a branch or a loop. -/
abbrev WritesBody (D : StmtDerivation .statement) (s : Stmt) : Prop :=
  D.Writes s.written (s.levels + 1) s.dangles s

abbrev WritesCommand (D : StmtDerivation .command) (s : Stmt) : Prop :=
  D.Writes s.written s.levels s.dangles s

abbrev WritesDeclaration (D : StmtDerivation .declaration) (s : Stmt) : Prop :=
  D.Writes s.written s.levels false [s]

/-- The derivation writes statements one after the other. -/
abbrev WritesItems (D : StmtDerivation .items) (ss : List Stmt) : Prop :=
  D.Writes (Stmt.writtenAll ss) (Stmt.levelsAll ss) false ss

/-- What a statement is, and how it is derived. -/
inductive Part (s : Stmt) : Prop
  | declaration (hs : s.isDeclaration = true) {D : StmtDerivation .declaration}
      (h : D.WritesDeclaration s)
  | empty (hs : s.isEmpty = true)
  | command (hs : s.isDeclaration = false) {D : StmtDerivation .command} (h : D.WritesCommand s)

section Parts

variable {s : Stmt} {rest : List Stmt}

theorem Part.exists_body (h : Part s) : ∃ D : StmtDerivation .statement, D.WritesBody s := by
  cases h with
  | @declaration hs D h =>
    refine ⟨.declared D, h.tokens, h.settled, ?_, ?_, fun i => ?_⟩
    · simp [h.nesting]
    · exact (Stmt.dangles_of_isDeclaration hs).symm
    · have hdeclared := declared_relabel .unmarked D.location (D.tree i)
      have hsingle : relabel .unmarked (D.tree i) = [relabel .unmarked s] := h.tree i
      rw [hsingle] at hdeclared
      exact hdeclared.symm
  | empty hs =>
    cases s with
    | expr value p =>
      cases value with
      | omitted m =>
        exact ⟨.empty ⟨ofKind .semicolon, rfl⟩, rfl, trivial, rfl, rfl, fun _ => rfl⟩
      | _ => cases hs
    | _ => cases hs
  | @command hs D h =>
    refine ⟨.command D, h.tokens, h.settled, ?_, h.dangles, h.tree⟩
    simp [h.nesting]

theorem Part.exists_items (h : Part s) (hempty : s.isEmpty = false) {R : StmtDerivation .items}
    (hR : R.WritesItems rest) : ∃ D : StmtDerivation .items, D.WritesItems (s :: rest) := by
  cases h with
  | @declaration hs D h =>
    refine ⟨.cons (.declared D) R, ?_, ⟨h.settled, hR.settled⟩, ?_, rfl, fun i => ?_⟩
    · simp [h.tokens, hR.tokens]
    · simp [h.nesting, hR.nesting, Stmt.itemLevels, hs]
    · exact (relabel_append _ _ _).trans
        (congrArg₂ (fun ss ts : List Stmt => ss ++ ts) (h.tree i) (hR.tree _))
  | empty hs => exact absurd (hs.symm.trans hempty) nofun
  | @command hs D h =>
    refine ⟨.cons (.command D) R, ?_, ⟨h.settled, hR.settled⟩, ?_, rfl, fun i => ?_⟩
    · simp [h.tokens, hR.tokens]
    · simp [h.nesting, hR.nesting, Stmt.itemLevels, hs]
    · exact congrArg₂ List.cons (h.tree i) (hR.tree _)

theorem Part.exists_declaration (h : Part s) (hs : s.isDeclaration = true) :
    ∃ D : StmtDerivation .declaration, D.WritesDeclaration s := by
  cases h with
  | declaration _ h => exact ⟨_, h⟩
  | empty hempty =>
    rw [Stmt.isEmpty_of_isDeclaration hs] at hempty
    cases hempty
  | command hcommand h =>
    rw [hs] at hcommand
    cases hcommand

end Parts

/-! ## One constructor at a time -/

section Constructors

variable {name : String} {e value : Expr} {body : List Stmt} {s t : Stmt} (p : Location)

theorem writes_declareVar {type : BaseType} {init : Option Expr} {I : Initializer}
    (hI : I.Writes init) :
    (vars (.ofType type) (.last ⟨ofName name, rfl⟩ I) ⟨ofKind .semicolon, rfl⟩).WritesDeclaration
      (.declareVar name type init p) := by
  refine ⟨?_, hI.settled, hI.nesting, rfl, fun i => ?_⟩
  · simp [Declarators.tokens, hI.tokens, TypeWord.ofType]
  · exact congrArg (fun init => [Stmt.declareVar name type init .first]) (hI.tree i)

theorem writes_declareFun {returns : BaseType} {params : List Param} {P : Option Parameters}
    (htokens : parameterTokens P = Param.writtenAll params)
    (htree : relabel .unmarked (parameterTree P) = relabel .unmarked params)
    {D : StmtDerivation .items} (hD : D.WritesItems body) :
    (function (.ofType returns) ⟨ofName name, rfl⟩ ⟨ofKind .leftParen, rfl⟩ P
      ⟨ofKind .rightParen, rfl⟩ ⟨ofKind .leftBrace, rfl⟩ D
      ⟨ofKind .rightBrace, rfl⟩).WritesDeclaration (.declareFun name returns params body p) := by
  refine ⟨?_, hD.settled, ?_, rfl, fun i => ?_⟩
  · simp [htokens, hD.tokens, TypeWord.ofType]
  · simp [hD.nesting]
  · change [relabel .unmarked (Stmt.declareFun name returns (parameterTree P) (D.tree i) _)] =
      [relabel .unmarked (Stmt.declareFun name returns params body p)]
    rw [relabel_declareFun, relabel_declareFun, htree]
    exact congrArg (fun ss => [Stmt.declareFun name returns _ ss .first]) (hD.tree i)

theorem writes_block {D : StmtDerivation .items} (hD : D.WritesItems body) :
    (block ⟨ofKind .leftBrace, rfl⟩ D ⟨ofKind .rightBrace, rfl⟩).WritesCommand
      (.block body p) := by
  refine ⟨?_, hD.settled, ?_, rfl, fun i => ?_⟩
  · simp [hD.tokens]
  · simp [hD.nesting]
  · change relabel .unmarked (Stmt.block (D.tree i) _) = relabel .unmarked (Stmt.block body p)
    rw [relabel_block, relabel_block]
    exact congrArg (fun ss => Stmt.block ss .first) (hD.tree i)

theorem writes_branch {E : ExpressionDerivation} (hE : E.WritesExpr e)
    {D : StmtDerivation .statement} (hD : D.WritesBody s) :
    (branch ⟨ofKind .ifWord, rfl⟩ ⟨ofKind .leftParen, rfl⟩ E ⟨ofKind .rightParen, rfl⟩
      D).WritesCommand (.branch e s none p) := by
  refine ⟨?_, ⟨hE.settled, hD.settled⟩, ?_, rfl, fun i => ?_⟩
  · simp [hE.tokens, hD.tokens]
  · simp [hE.nesting, hD.nesting]
  · exact congrArg₂ (fun e s => Stmt.branch e s none .first) (hE.tree i) (hD.tree _)

theorem writes_branchElse {E : ExpressionDerivation} (hE : E.WritesExpr e)
    {D D' : StmtDerivation .statement} (hD : D.WritesBody s) (hdangles : s.dangles = false)
    (hD' : D'.WritesBody t) :
    (branchElse ⟨ofKind .ifWord, rfl⟩ ⟨ofKind .leftParen, rfl⟩ E ⟨ofKind .rightParen, rfl⟩ D
      ⟨ofKind .elseWord, rfl⟩ D').WritesCommand (.branch e s (some t) p) := by
  refine ⟨?_, ⟨hE.settled, hD.settled, hD.dangles.trans hdangles, hD'.settled⟩, ?_, ?_, fun i => ?_⟩
  · simp [hE.tokens, hD.tokens, hD'.tokens]
  · simp [hE.nesting, hD.nesting, hD'.nesting]
  · exact hD'.dangles
  · refine (congrArg₂ (fun e s => Stmt.branch e s (some _) .first) (hE.tree i) (hD.tree _)).trans ?_
    exact congrArg (fun t => Stmt.branch _ _ (some t) .first) (hD'.tree _)

theorem writes_whileLoop {E : ExpressionDerivation} (hE : E.WritesExpr e)
    {D : StmtDerivation .statement} (hD : D.WritesBody s) :
    (whileLoop ⟨ofKind .whileWord, rfl⟩ ⟨ofKind .leftParen, rfl⟩ E ⟨ofKind .rightParen, rfl⟩
      D).WritesCommand (.whileLoop e s p) := by
  refine ⟨?_, ⟨hE.settled, hD.settled⟩, ?_, hD.dangles, fun i => ?_⟩
  · simp [hE.tokens, hD.tokens]
  · simp [hE.nesting, hD.nesting]
  · exact congrArg₂ (fun e s => Stmt.whileLoop e s .first) (hE.tree i) (hD.tree _)

theorem writes_forLoop {init update : Expr} {I C U : Clause} (hI : I.Writes init)
    (hC : C.Writes e) (hU : U.Writes update) {D : StmtDerivation .statement}
    (hD : D.WritesBody s) :
    (forLoop ⟨ofKind .forWord, rfl⟩ ⟨ofKind .leftParen, rfl⟩ I ⟨ofKind .semicolon, rfl⟩ C
      ⟨ofKind .semicolon, rfl⟩ U ⟨ofKind .rightParen, rfl⟩ D).WritesCommand
      (.forLoop init e update s p) := by
  refine ⟨?_, ⟨hI.settled, hC.settled, hU.settled, hD.settled⟩, ?_, hD.dangles, fun i => ?_⟩
  · simp [hI.tokens, hC.tokens, hU.tokens, hD.tokens]
  · simp [hI.nesting, hC.nesting, hU.nesting, hD.nesting]
  · refine (congrArg₂ (fun init e => Stmt.forLoop init e _ _ .first) (hI.tree _ i)
      (hC.tree _ _)).trans ?_
    exact congrArg₂ (fun update s => Stmt.forLoop _ _ update s .first) (hU.tree _ _) (hD.tree _)

theorem writes_ret {C : Clause} (hC : C.Writes value) :
    (ret ⟨ofKind .returnWord, rfl⟩ C ⟨ofKind .semicolon, rfl⟩).WritesCommand (.ret value p) := by
  refine ⟨?_, hC.settled, ?_, rfl, fun i => ?_⟩
  · simp [hC.tokens]
  · simp [hC.nesting]
  · exact congrArg (fun e => Stmt.ret e .first) (hC.tree _ i)

theorem writes_print {E : ExpressionDerivation} (hE : E.WritesExpr value) :
    (print ⟨ofKind .printWord, rfl⟩ ⟨ofKind .leftParen, rfl⟩ E ⟨ofKind .rightParen, rfl⟩
      ⟨ofKind .semicolon, rfl⟩).WritesCommand (.print value p) := by
  refine ⟨?_, hE.settled, ?_, rfl, fun i => ?_⟩
  · simp [hE.tokens]
  · simp [hE.nesting]
  · exact congrArg (fun e => Stmt.print e .first) (hE.tree i)

theorem writes_expr {E : ExpressionDerivation} (hE : E.WritesExpr value) :
    (expr E ⟨ofKind .semicolon, rfl⟩).WritesCommand (.expr value p) := by
  refine ⟨?_, hE.settled, ?_, rfl, fun i => ?_⟩
  · simp [hE.tokens]
  · simp [hE.nesting]
  · exact congrArg (fun e => Stmt.expr e .first) (hE.tree i)

end Constructors

mutual
/-- A well-formed statement is derived from what is written for it. -/
theorem part_of_wellFormed : (s : Stmt) → s.WellFormed → Part s
  | .declareVar name type init p, h => by
    obtain ⟨I, hI⟩ := Initializer.exists_writes h
    exact .declaration rfl (writes_declareVar p hI)
  | .declareFun name returns params body p, h => by
    obtain ⟨P, htokens, htree⟩ := exists_parameters params
    obtain ⟨D, hD⟩ := exists_items body h
    exact .declaration rfl (writes_declareFun p htokens htree hD)
  | .block body p, h => by
    obtain ⟨D, hD⟩ := exists_items body h
    exact .command rfl (writes_block p hD)
  | .branch e thenBody none p, h => by
    obtain ⟨E, hE⟩ := ExprDerivation.exists_writes e h.1
    obtain ⟨D, hD⟩ := (part_of_wellFormed thenBody h.2).exists_body
    exact .command rfl (writes_branch p hE hD)
  | .branch e thenBody (some elseBody) p, h => by
    obtain ⟨he, hthen, hdangles, helse⟩ := h
    obtain ⟨E, hE⟩ := ExprDerivation.exists_writes e he
    obtain ⟨D, hD⟩ := (part_of_wellFormed thenBody hthen).exists_body
    obtain ⟨D', hD'⟩ := (part_of_wellFormed elseBody helse).exists_body
    exact .command rfl (writes_branchElse p hE hD hdangles hD')
  | .whileLoop e body p, h => by
    obtain ⟨E, hE⟩ := ExprDerivation.exists_writes e h.1
    obtain ⟨D, hD⟩ := (part_of_wellFormed body h.2).exists_body
    exact .command rfl (writes_whileLoop p hE hD)
  | .forLoop init e update body p, h => by
    obtain ⟨hinit, he, hupdate, hbody⟩ := h
    obtain ⟨I, hI⟩ := Clause.exists_writes hinit
    obtain ⟨C, hC⟩ := Clause.exists_writes he
    obtain ⟨U, hU⟩ := Clause.exists_writes hupdate
    obtain ⟨D, hD⟩ := (part_of_wellFormed body hbody).exists_body
    exact .command rfl (writes_forLoop p hI hC hU hD)
  | .ret value p, h => by
    obtain ⟨C, hC⟩ := Clause.exists_writes h
    exact .command rfl (writes_ret p hC)
  | .print value p, h => by
    obtain ⟨E, hE⟩ := ExprDerivation.exists_writes value h
    exact .command rfl (writes_print p hE)
  | .expr value p, h => by
    rcases h with homitted | hcomplete
    · exact .empty homitted
    · obtain ⟨E, hE⟩ := ExprDerivation.exists_writes value hcomplete
      exact .command rfl (writes_expr p hE)

theorem exists_items : (ss : List Stmt) → Stmt.AllWellFormed ss →
    ∃ D : StmtDerivation .items, D.WritesItems ss
  | [], _ => ⟨.nil, rfl, trivial, rfl, rfl, fun _ => rfl⟩
  | s :: rest, h => by
    obtain ⟨R, hR⟩ := exists_items rest h.2.2
    exact (part_of_wellFormed s h.2.1).exists_items h.1 hR
end

/-- A well-formed program is derived from what is written for it. -/
theorem exists_program {p : Program} (h : p.WellFormed) :
    ∃ D : StmtDerivation .program,
      D.Writes (Stmt.writtenAll p) (Stmt.levelsAll p) false p := by
  induction p with
  | nil => exact ⟨.done, rfl, trivial, rfl, rfl, fun _ => rfl⟩
  | cons s p ih =>
    obtain ⟨hs, hwellFormed⟩ := h s List.mem_cons_self
    obtain ⟨D, hD⟩ := (part_of_wellFormed s hwellFormed).exists_declaration hs
    obtain ⟨R, hR⟩ := ih fun t ht => h t (.tail s ht)
    refine ⟨.next D R, ?_, ⟨hD.settled, hR.settled⟩, ?_, rfl, fun i => ?_⟩
    · simp [hD.tokens, hR.tokens]
    · simp [hD.nesting, hR.nesting, Stmt.itemLevels, hs]
    · exact (relabel_append _ _ _).trans
        (congrArg₂ (fun ss ts : List Stmt => ss ++ ts) (hD.tree i) (hR.tree _))

end StmtDerivation
end Grammar
end MiniCheck
