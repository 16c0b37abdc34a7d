import MiniCheck.Proofs.Grammar.ProgramReading
import MiniCheck.Proofs.Typing.Framing

/-!
# Declarations as bodies of branches and loops

Branches and loops open no frame of their own. A declaration that is the body of one has a frame
around it only if it stands in a block, and where one tree has to stand, a declaration is put
into a block only if it declares several variables. A variable that is declared alone goes to the
frame around the branch or the loop.
-/

namespace MiniCheck

namespace Stmt

mutual
/-- The branches and loops in a statement, in the order in which they begin. -/
def controls : Stmt → List Stmt
  | declareFun _ _ _ body _ | block body _ => allControls body
  | branch e thenBody none p => branch e thenBody none p :: thenBody.controls
  | branch e thenBody (some elseBody) p =>
    branch e thenBody (some elseBody) p :: (thenBody.controls ++ elseBody.controls)
  | whileLoop e body p => whileLoop e body p :: body.controls
  | forLoop init e update body p => forLoop init e update body p :: body.controls
  | declareVar _ _ _ _ | ret _ _ | print _ _ | expr _ _ => []

def allControls : List Stmt → List Stmt
  | [] => []
  | s :: rest => s.controls ++ allControls rest
end

theorem allControls_append (ss rest : List Stmt) :
    allControls (ss ++ rest) = allControls ss ++ allControls rest := by
  induction ss with
  | nil => rfl
  | cons s ss ih =>
    simp only [List.cons_append, allControls, List.append_assoc]
    rw [ih]

/-- The variables that a statement declares with no block or function around them. -/
def exposed : Stmt → List (String × BaseType)
  | declareVar name type _ _ => [(name, type)]
  | branch _ thenBody none _ => thenBody.exposed
  | branch _ thenBody (some elseBody) _ => thenBody.exposed ++ elseBody.exposed
  | whileLoop _ body _ | forLoop _ _ _ body _ => body.exposed
  | declareFun _ _ _ _ _ | block _ _ | ret _ _ | print _ _ | expr _ _ => []

end Stmt

namespace Grammar

/-- The variable of a declaration that declares no other. -/
def Declarators.alone (type : BaseType) : Declarators → List (String × BaseType)
  | last name _ => [(name.val.lexeme, type)]
  | more _ _ _ _ => []

namespace StmtRule

def controls : (r : StmtRule) → r.Result → List Stmt
  | statement, s | command, s => s.controls
  | items, ss | declaration, ss | program, ss => Stmt.allControls ss

/-- Only a single tree exposes anything. -/
def exposed : (r : StmtRule) → r.Result → List (String × BaseType)
  | statement, s | command, s => s.exposed
  | items, _ | declaration, _ | program, _ => []

end StmtRule

theorem controls_declared (p : Location) (ss : List Stmt) :
    (declared p ss).controls = Stmt.allControls ss := by
  unfold declared
  split
  · simp only [Stmt.allControls, List.append_nil]
  · simp only [Stmt.controls]

theorem Declarators.controls_tree (type : BaseType) : ∀ (D : Declarators) (i : Nat),
    Stmt.allControls (D.tree type i) = []
  | last _ _, _ => rfl
  | more _ init _ rest, i => by
    simp only [tree, Stmt.allControls, Stmt.controls, List.nil_append]
    exact rest.controls_tree type (i + init.size)

namespace StmtDerivation

/-- The statement is the tree of a command that stands somewhere in the tokens. -/
def WrittenIn (ts : List Token) (s : Stmt) : Prop :=
  ∃ (D : StmtDerivation .command) (i : Nat), D.tokens <:+: ts ∧ D.tree i = s

theorem WrittenIn.mono {ts us : List Token} {s : Stmt} (h : WrittenIn ts s) (hts : ts <:+: us) :
    WrittenIn us s := by
  obtain ⟨D, i, htokens, htree⟩ := h
  exact ⟨D, i, htokens.trans hts, htree⟩

theorem writtenIn_tokens (D : StmtDerivation .command) (i : Nat) : WrittenIn D.tokens (D.tree i) :=
  ⟨D, i, List.infix_refl _, rfl⟩

/-- Every branch and every loop in the tree of a derivation is written in its tokens. -/
theorem writtenIn_of_mem_controls : ∀ {r : StmtRule} (D : StmtDerivation r) (i : Nat),
    ∀ s ∈ r.controls (D.tree i), WrittenIn D.tokens s
  | _, declared declaration, i, s, hs => by
    have hs : s ∈ Stmt.allControls (declaration.tree i) := controls_declared _ _ ▸ hs
    exact declaration.writtenIn_of_mem_controls i s hs
  | _, empty _, _, _, hs | _, ret _ _ _, _, _, hs | _, print _ _ _ _ _, _, _, hs
  | _, expr _ _, _, _, hs | _, nil, _, _, hs | _, done, _, _, hs => absurd hs List.not_mem_nil
  | _, command inner, i, s, hs => inner.writtenIn_of_mem_controls i s hs
  | _, block left body right, i, s, hs =>
    (body.writtenIn_of_mem_controls i s hs).mono ⟨[left.val], [right.val], rfl⟩
  | _, branch word left condition right thenBody, i, s, hs => by
    rcases List.mem_cons.mp hs with rfl | hs
    · exact (branch word left condition right thenBody).writtenIn_tokens i
    · refine (thenBody.writtenIn_of_mem_controls _ s hs).mono
        ⟨word.val :: left.val :: (condition.tokens ++ [right.val]), [], ?_⟩
      simp [tokens]
  | _, branchElse word left condition right thenBody elseWord elseBody, i, s, hs => by
    simp only [StmtRule.controls, tree, Stmt.controls, List.mem_cons, List.mem_append] at hs
    rcases hs with rfl | hs | hs
    · exact (branchElse word left condition right thenBody elseWord elseBody).writtenIn_tokens i
    · refine (thenBody.writtenIn_of_mem_controls _ s hs).mono
        ⟨word.val :: left.val :: (condition.tokens ++ [right.val]),
          elseWord.val :: elseBody.tokens, ?_⟩
      simp [tokens]
    · refine (elseBody.writtenIn_of_mem_controls _ s hs).mono
        ⟨word.val :: left.val :: (condition.tokens ++ right.val :: (thenBody.tokens ++
          [elseWord.val])), [], ?_⟩
      simp [tokens]
  | _, whileLoop word left condition right body, i, s, hs => by
    rcases List.mem_cons.mp hs with rfl | hs
    · exact (whileLoop word left condition right body).writtenIn_tokens i
    · refine (body.writtenIn_of_mem_controls _ s hs).mono
        ⟨word.val :: left.val :: (condition.tokens ++ [right.val]), [], ?_⟩
      simp [tokens]
  | _, forLoop word left init first condition second update right body, i, s, hs => by
    rcases List.mem_cons.mp hs with rfl | hs
    · exact (forLoop word left init first condition second update right body).writtenIn_tokens i
    · refine (body.writtenIn_of_mem_controls _ s hs).mono
        ⟨word.val :: left.val :: (init.tokens ++ first.val :: (condition.tokens ++ second.val ::
          (update.tokens ++ [right.val]))), [], ?_⟩
      simp [tokens]
  | _, cons (declared declaration) rest, i, s, hs => by
    simp only [StmtRule.controls, tree, Stmt.allControls_append, List.mem_append] at hs
    rcases hs with hs | hs
    · exact (declaration.writtenIn_of_mem_controls i s hs).mono (List.prefix_append _ _).isInfix
    · exact (rest.writtenIn_of_mem_controls _ s hs).mono (List.suffix_append _ _).isInfix
  | _, cons (empty semicolon) rest, i, s, hs =>
    (rest.writtenIn_of_mem_controls i s hs).mono (List.suffix_append [semicolon.val] _).isInfix
  | _, cons (command inner) rest, i, s, hs => by
    simp only [StmtRule.controls, tree, Stmt.allControls, List.mem_append] at hs
    rcases hs with hs | hs
    · exact (inner.writtenIn_of_mem_controls i s hs).mono (List.prefix_append _ _).isInfix
    · exact (rest.writtenIn_of_mem_controls _ s hs).mono (List.suffix_append _ _).isInfix
  | _, function type name left params right leftBrace body rightBrace, i, s, hs => by
    simp only [StmtRule.controls, tree, Stmt.allControls, Stmt.controls, List.append_nil] at hs
    refine (body.writtenIn_of_mem_controls i s hs).mono
      ⟨type.token.val :: name.val :: left.val :: (parameterTokens params ++ [right.val,
        leftBrace.val]), [rightBrace.val], ?_⟩
    simp [tokens]
  | _, vars type names _, i, s, hs => by
    have hs : s ∈ Stmt.allControls (names.tree type.type i) := hs
    rw [names.controls_tree] at hs
    exact absurd hs List.not_mem_nil
  | _, next first rest, i, s, hs => by
    simp only [StmtRule.controls, tree, Stmt.allControls_append, List.mem_append] at hs
    rcases hs with hs | hs
    · exact (first.writtenIn_of_mem_controls i s hs).mono (List.prefix_append _ _).isInfix
    · exact (rest.writtenIn_of_mem_controls _ s hs).mono (List.suffix_append _ _).isInfix

/-- The variables that are declared alone, as the body of a branch or a loop or as the statement
itself. -/
def exposed : {r : StmtRule} → StmtDerivation r → List (String × BaseType)
  | _, declared (vars type names _) => names.alone type.type
  | _, command inner => inner.exposed
  | _, branch _ _ _ _ thenBody => thenBody.exposed
  | _, branchElse _ _ _ _ thenBody _ elseBody => thenBody.exposed ++ elseBody.exposed
  | _, whileLoop _ _ _ _ body => body.exposed
  | _, forLoop _ _ _ _ _ _ _ _ body => body.exposed
  | _, _ => []

theorem exposed_declared (type : TypeWord) (names : Declarators) (semicolon : Token.Of .semicolon)
    (i : Nat) :
    ((declared (vars type names semicolon)).tree i).exposed = names.alone type.type := by
  cases names with
  | last name init => rfl
  -- Several variables are several trees, so they are put into a block.
  | more name init comma rest => cases rest <;> rfl

/-- How a body is written decides what its tree exposes. -/
theorem exposed_tree : ∀ {r : StmtRule} (D : StmtDerivation r) (i : Nat),
    r.exposed (D.tree i) = D.exposed
  | _, declared (vars type names semicolon), i => exposed_declared type names semicolon i
  | _, declared (function _ _ _ _ _ _ _ _), _ | _, empty _, _ | _, block _ _ _, _
  | _, ret _ _ _, _ | _, print _ _ _ _ _, _ | _, expr _ _, _ | _, nil, _ | _, cons _ _, _
  | _, function _ _ _ _ _ _ _ _, _ | _, vars _ _ _, _ | _, done, _ | _, next _ _, _ => rfl
  | _, command inner, i => inner.exposed_tree i
  | _, branch _ _ condition _ thenBody, i => thenBody.exposed_tree (i + condition.size)
  | _, branchElse _ _ condition _ thenBody _ elseBody, i => by
    have hthen := thenBody.exposed_tree (i + condition.size)
    have helse := elseBody.exposed_tree (i + condition.size + thenBody.size)
    simp only [StmtRule.exposed] at hthen helse
    simp only [tree, StmtRule.exposed, Stmt.exposed, exposed, hthen, helse]
  | _, whileLoop _ _ condition _ body, i => body.exposed_tree (i + condition.size)
  | _, forLoop _ _ init _ condition _ update _ body, i =>
    body.exposed_tree (i + init.size + condition.size + update.size)

end StmtDerivation
end Grammar

namespace Frame

/-- Adds a variable if its name is free. -/
def declare (frame : Frame) (v : String × BaseType) : Frame :=
  if (frame.lookup v.1).isSome then frame else v :: frame

theorem suffix_declare (frame : Frame) (v : String × BaseType) : frame <:+ frame.declare v := by
  unfold declare
  split
  · exact List.suffix_refl frame
  · exact List.suffix_cons v frame

theorem suffix_foldl_declare (vars : List (String × BaseType)) : ∀ frame : Frame,
    frame <:+ vars.foldl declare frame := by
  induction vars with
  | nil => exact List.suffix_refl
  | cons v vars ih => exact fun frame => (frame.suffix_declare v).trans (ih (frame.declare v))

theorem declare_eq_self_iff {frame : Frame} {v : String × BaseType} :
    frame.declare v = frame ↔ (frame.lookup v.1).isSome := by
  unfold declare
  split
  · rename_i h
    exact iff_of_true rfl h
  · rename_i h
    exact iff_of_false (List.cons_ne_self v frame) h

/-- Nothing is added if and only if all the names are there already. -/
theorem foldl_declare_eq_self_iff {frame : Frame} {vars : List (String × BaseType)} :
    vars.foldl declare frame = frame ↔ ∀ v ∈ vars, (frame.lookup v.1).isSome := by
  induction vars with
  | nil => exact iff_of_true rfl nofun
  | cons v vars ih =>
    rw [List.foldl_cons, List.forall_mem_cons, ← declare_eq_self_iff, ← ih]
    constructor
    · intro h
      have hsuffix := suffix_foldl_declare vars (frame.declare v)
      rw [h] at hsuffix
      -- A frame never shrinks, so it comes back to what it was only if it never left.
      have hself : frame.declare v = frame :=
        hsuffix.eq_of_length_le (frame.suffix_declare v).length_le
      rw [hself] at h
      exact ⟨hself, h⟩
    · rintro ⟨hself, h⟩
      rw [hself, h]

end Frame

namespace SymbolTable

theorem frames_bind (t : SymbolTable) (name : String) (type : BaseType) :
    (t.bind name type).frames = ((name, type) :: t.innermost) :: t.frames.tail := by
  rw [frames_eq_cons, innermost_bind, tail_frames_bind]

/-- What a statement exposes goes to the innermost frame. The other frames are kept. -/
theorem frames_after : (s : Stmt) → ∀ t : SymbolTable,
    (t.after s).frames = s.exposed.foldl Frame.declare t.innermost :: t.frames.tail
  | .declareVar name type init p, t => by
    simp only [after, Stmt.exposed, List.foldl_cons, List.foldl_nil, Frame.declare]
    rw [declaring_declareVariable]
    split
    · exact t.frames_eq_cons
    · exact t.frames_bind name type
  | .branch e thenBody none p, t => by
    simp only [after, Stmt.exposed]
    exact frames_after thenBody t
  | .branch e thenBody (some elseBody) p, t => by
    have hthen := frames_after thenBody t
    rw [frames_eq_cons] at hthen
    obtain ⟨hinnermost, houter⟩ := List.cons.inj hthen
    simp only [after, Stmt.exposed, List.foldl_append]
    rw [frames_after elseBody, hinnermost, houter]
  | .whileLoop e body p, t | .forLoop _ _ _ body p, t => by
    simp only [after, Stmt.exposed]
    exact frames_after body t
  | .declareFun name returns params body p, t =>
    (extends_declareFun t (extends_afterAll body) name returns params p).1.trans t.frames_eq_cons
  | .block body p, t => (extends_block t (extends_afterAll body t.push) p).1.trans t.frames_eq_cons
  | .ret value p, t | .print value p, t | .expr value p, t => t.frames_eq_cons

end SymbolTable

namespace Walk

open Grammar

/-- A branch or a loop of a program that is read declares in the frame around it the variables
that are written alone where one of its bodies stands. What is written in a block or together with
other variables does not get there. So the frames stay as they were if and only if the innermost
one has all of those names already. -/
theorem frames_visit_control {ts : List Token} {p : Program} (h : Program.ofTokens ts = .ok p)
    {s : Stmt} (hs : s ∈ Stmt.allControls p) :
    ∃ (D : StmtDerivation .command) (i : Nat), D.tokens <:+: ts ∧ D.tree i = s ∧ ∀ w : Walk,
      (visit s w).2.symbols.frames =
          D.exposed.foldl Frame.declare w.symbols.innermost :: w.symbols.frames.tail ∧
        ((visit s w).2.symbols.frames = w.symbols.frames ↔
          ∀ v ∈ D.exposed, (w.symbols.innermost.lookup v.1).isSome) := by
  obtain ⟨P, rfl, _, _, rfl⟩ := Program.ofTokens_eq_ok_iff.mp h
  obtain ⟨D, i, htokens, rfl⟩ := P.writtenIn_of_mem_controls 0 s hs
  refine ⟨D, i, htokens, rfl, fun w => ?_⟩
  have hframes := SymbolTable.frames_after (D.tree i) w.symbols
  have hexposed : (D.tree i).exposed = D.exposed := D.exposed_tree i
  rw [← symbols_visit, hexposed] at hframes
  refine ⟨hframes, ?_⟩
  rw [hframes, SymbolTable.frames_eq_cons w.symbols, List.tail_cons, List.cons.injEq,
    Frame.foldl_declare_eq_self_iff]
  exact and_iff_left rfl

/-- The tokens of `void main() \x7b if (1) int a; \x7d`. -/
def loneBody : List Token :=
  [⟨.voidWord, "void", ⟨1, 1⟩⟩, ⟨.name, "main", ⟨1, 6⟩⟩, ⟨.leftParen, "(", ⟨1, 10⟩⟩,
    ⟨.rightParen, ")", ⟨1, 11⟩⟩, ⟨.leftBrace, "\x7b", ⟨1, 13⟩⟩, ⟨.ifWord, "if", ⟨1, 15⟩⟩,
    ⟨.leftParen, "(", ⟨1, 18⟩⟩, ⟨.number, "1", ⟨1, 19⟩⟩, ⟨.rightParen, ")", ⟨1, 20⟩⟩,
    ⟨.intWord, "int", ⟨1, 22⟩⟩, ⟨.name, "a", ⟨1, 26⟩⟩, ⟨.semicolon, ";", ⟨1, 27⟩⟩,
    ⟨.rightBrace, "\x7d", ⟨1, 29⟩⟩]

/-- The branch in it. -/
def loneBranch : Stmt :=
  .branch (.number "1" ⟨0, ⟨1, 19⟩⟩) (.declareVar "a" .int none ⟨1, 26⟩) none ⟨1, 15⟩

theorem frames_visit_control_loneBranch :
    Program.ofTokens loneBody = .ok [.declareFun "main" .void [] [loneBranch] ⟨1, 6⟩] ∧
      (visit loneBranch start).2.symbols.frames = [[("a", .int)]] ∧
      ∃ (D : StmtDerivation .command) (i : Nat), D.tokens <:+: loneBody ∧ D.tree i = loneBranch ∧
        ∀ w : Walk,
          (visit loneBranch w).2.symbols.frames =
              D.exposed.foldl Frame.declare w.symbols.innermost :: w.symbols.frames.tail ∧
            ((visit loneBranch w).2.symbols.frames = w.symbols.frames ↔
              ∀ v ∈ D.exposed, (w.symbols.innermost.lookup v.1).isSome) := by
  have hread : Program.ofTokens loneBody = .ok [.declareFun "main" .void [] [loneBranch] ⟨1, 6⟩] :=
    rfl
  exact ⟨hread, rfl, frames_visit_control hread List.mem_cons_self⟩

/-- The branch leaves `a` behind. -/
theorem not_controls_keep_frames :
    ¬ ∀ (ts : List Token) (p : Program), Program.ofTokens ts = .ok p →
      ∀ s ∈ Stmt.allControls p, ∀ w : Walk,
        (visit s w).2.symbols.frames = w.symbols.frames := by
  intro h
  have hread : Program.ofTokens loneBody = .ok [.declareFun "main" .void [] [loneBranch] ⟨1, 6⟩] :=
    rfl
  have hkept := h _ _ hread loneBranch List.mem_cons_self start
  exact absurd hkept (by decide)

end Walk
end MiniCheck
