import MiniCheck.Proofs.Grammar.WellFormed
import MiniCheck.Proofs.Typing.Framing

/-!
# The first declarations of all names

What a check leaves in its symbol table can be told from the program alone. The globals are the
variables at the top level, each with its first declaration. The functions are found by a walk
through the whole tree that does not go into those whose name it has met before.
-/

namespace MiniCheck

section Firsts

variable {α : Type}

/-- Of all entries with one name the first. -/
def firsts (entries : List (String × α)) : List (String × α) :=
  entries.eraseDupsBy fun other e => other.1 == e.1

/-- The first entries under names that do not come in front of the list. -/
def newFirsts (names : List String) (entries : List (String × α)) : List (String × α) :=
  firsts (entries.filter fun e => e.1 ∉ names)

theorem newFirsts_nil (entries : List (String × α)) : newFirsts [] entries = firsts entries :=
  congrArg firsts (List.filter_eq_self.mpr fun _ _ => by simp)

theorem newFirsts_cons_of_mem {names : List String} {e : String × α} (h : e.1 ∈ names)
    (rest : List (String × α)) : newFirsts names (e :: rest) = newFirsts names rest := by
  rw [newFirsts, List.filter_cons_of_neg (by simp [h]), newFirsts]

theorem newFirsts_cons_of_not_mem {names : List String} {e : String × α} (h : e.1 ∉ names)
    (rest : List (String × α)) :
    newFirsts names (e :: rest) = e :: newFirsts (names ++ [e.1]) rest := by
  rw [newFirsts, List.filter_cons_of_pos (by simp [h]), firsts, List.eraseDupsBy_cons,
    List.filter_filter]
  refine congrArg (fun others => e :: firsts others) (List.filter_congr fun other _ => ?_)
  simp [and_comm]

theorem isSome_lookup_iff_mem (entries : List (String × α)) (name : String) :
    (entries.lookup name).isSome ↔ name ∈ entries.reverse.map Prod.fst := by
  rw [List.map_reverse, List.mem_reverse, List.lookup_isSome_iff]
  simp

end Firsts

/-! ## What a program declares -/

namespace Stmt

def variableOf? : Stmt → Option (String × BaseType)
  | declareVar name type _ _ => some (name, type)
  | _ => none

mutual
/-- The functions that a walk through the statement knows at its end, if it begins with those in
`known`. It does not go into a function whose name is known. -/
def functions (known : List (String × Signature)) : Stmt → List (String × Signature)
  | declareFun name returns params body _ =>
    if name ∈ known.map Prod.fst then known
    else allFunctions (known ++ [(name, ⟨returns, params.map Param.type⟩)]) body
  | block body _ => allFunctions known body
  | branch _ thenBody none _ => thenBody.functions known
  | branch _ thenBody (some elseBody) _ => elseBody.functions (thenBody.functions known)
  | whileLoop _ body _ | forLoop _ _ _ body _ => body.functions known
  | declareVar _ _ _ _ | ret _ _ | print _ _ | expr _ _ => known

def allFunctions (known : List (String × Signature)) : List Stmt → List (String × Signature)
  | [] => known
  | s :: rest => allFunctions (s.functions known) rest
end

end Stmt

namespace Program

/-- The variables that are declared at the top level. -/
def topVariables (p : Program) : List (String × BaseType) := p.filterMap Stmt.variableOf?

/-- The functions that are declared anywhere, under each name the first. Those inside of a second
one do not count. -/
def functions (p : Program) : List (String × Signature) := Stmt.allFunctions [] p

end Program

/-! ## What a table comes to hold -/

namespace SymbolTable

variable {t : SymbolTable}

theorem functions_inFunction (t : SymbolTable) (params : List Param) :
    (t.inFunction params).functions = t.functions := by
  -- Frames that are closed take no functions with them.
  have hclosed : (t.inFunction params).pop.pop.functions = t.functions := by
    rw [pop_pop_inFunction]
  exact hclosed

theorem functions_declaring (t : SymbolTable) (name : String) (type : BaseType) (p : Location) :
    (t.declaring fun t => t.declareVariable name type p).functions = t.functions := by
  rw [declaring_declareVariable]
  split
  · rfl
  · exact congrArg List.reverse (t.known_bind name type)

mutual
theorem functions_after : (s : Stmt) → ∀ t : SymbolTable,
    (t.after s).functions = s.functions t.functions
  | .declareVar name type init p, t => by
    simp only [after, Stmt.functions]
    exact t.functions_declaring name type p
  | .declareFun name returns params body p, t => by
    have hmem : (t.known.lookup name).isSome ↔ name ∈ t.functions.map Prod.fst :=
      isSome_lookup_iff_mem t.known name
    simp only [after, Stmt.functions, declareFunction]
    by_cases hname : (t.known.lookup name).isSome
    · rw [if_pos hname, if_pos (hmem.mp hname)]
    · rw [if_neg hname, if_neg (mt hmem.mpr hname)]
      -- The body is checked with the function itself among those that are known.
      refine (functions_afterAll body _).trans ?_
      rw [functions_inFunction]
      exact congrArg (fun known => Stmt.allFunctions known body) List.reverse_cons
  | .block body p, t => by
    simp only [after, Stmt.functions]
    exact functions_afterAll body t.push
  | .branch e thenBody none p, t => by
    simp only [after, Stmt.functions]
    exact functions_after thenBody t
  | .branch e thenBody (some elseBody) p, t => by
    simp only [after, Stmt.functions]
    rw [functions_after elseBody, functions_after thenBody]
  | .whileLoop e body p, t | .forLoop _ _ _ body p, t => by
    simp only [after, Stmt.functions]
    exact functions_after body t
  | .ret value p, t | .print value p, t | .expr value p, t => by
    simp only [after, Stmt.functions]

theorem functions_afterAll : (body : List Stmt) → ∀ t : SymbolTable,
    (t.afterAll body).functions = Stmt.allFunctions t.functions body
  | [], t => by
    simp only [afterAll, Stmt.allFunctions]
  | s :: rest, t => by
    simp only [afterAll, Stmt.allFunctions]
    rw [functions_afterAll rest, functions_after s]
end

theorem globals_declaring (ht : t.inner = []) (name : String) (type : BaseType) (p : Location) :
    (t.declaring fun t => t.declareVariable name type p).globals =
      if name ∈ t.globals.map Prod.fst then t.globals else t.globals ++ [(name, type)] := by
  have hmem : (t.outermost.lookup name).isSome ↔ name ∈ t.globals.map Prod.fst :=
    isSome_lookup_iff_mem t.outermost name
  rw [declaring_declareVariable, innermost_of_inner_nil ht]
  by_cases hname : (t.outermost.lookup name).isSome
  · rw [if_pos hname, if_pos (hmem.mp hname)]
  · rw [if_neg hname, if_neg (mt hmem.mpr hname), bind_of_inner_nil ht]
    exact List.reverse_cons

/-- At the top level variables become globals, and functions change none of them. -/
theorem globals_afterAll {p : Program} (hp : ∀ s ∈ p, s.isDeclaration = true) :
    ∀ {t : SymbolTable}, t.inner = [] → (t.afterAll p).globals =
      t.globals ++ newFirsts (t.globals.map Prod.fst) (Program.topVariables p) := by
  induction p with
  | nil => exact fun _ => (List.append_nil _).symm
  | cons s p ih =>
    intro t ht
    obtain ⟨hs, hp⟩ := List.forall_mem_cons.mp hp
    have hbehind := ih hp ((extends_after s t).inner_nil ht)
    simp only [afterAll]
    cases s with
    | declareVar name type init q =>
      have hvariables : Program.topVariables (.declareVar name type init q :: p) =
          (name, type) :: Program.topVariables p := List.filterMap_cons_some rfl
      have hglobals : (t.after (.declareVar name type init q)).globals =
          if name ∈ t.globals.map Prod.fst then t.globals else t.globals ++ [(name, type)] := by
        simp only [after]
        exact globals_declaring ht name type q
      rw [hbehind, hvariables, hglobals]
      by_cases hname : name ∈ t.globals.map Prod.fst
      · rw [if_pos hname, newFirsts_cons_of_mem hname]
      · rw [if_neg hname, newFirsts_cons_of_not_mem hname, List.map_append, List.append_assoc]
        rfl
    | declareFun name returns params body q =>
      have hframes := (extends_declareFun t (extends_afterAll body) name returns params q).1
      rw [hbehind, globals_of_frames_eq hframes]
      rfl
    | _ => cases hs

end SymbolTable

namespace Program

/-- The check of a program that was read leaves exactly the first declarations: as globals those
of the variables at the top level, and as functions those of the functions anywhere in the tree,
but not inside of functions that come second under their name. -/
theorem symbols_of_ofTokens {ts : List Token} {p : Program} (h : ofTokens ts = .ok p) :
    (Analysis.ofProgram p).symbols.globals = firsts (topVariables p) ∧
      (Analysis.ofProgram p).symbols.functions = functions p := by
  have hsymbols : (Analysis.ofProgram p).symbols = SymbolTable.empty.afterAll p :=
    Walk.symbols_visitAll p Walk.start
  have hdeclarations : ∀ s ∈ p, s.isDeclaration = true := fun s hs =>
    (wellFormed_of_ofTokens h s hs).1
  rw [hsymbols, SymbolTable.globals_afterAll hdeclarations rfl, SymbolTable.functions_afterAll]
  exact ⟨newFirsts_nil (topVariables p), rfl⟩

/-- Of `float x, x; void f() \x7b int f() \x7b void g() \x7b\x7d \x7d \x7d` the second `x` and
the inner `f` are not kept, and with `f` neither is `g`. -/
theorem symbols_of_ofTokens_second :
    let token : Token.Kind → String → Token := fun k lexeme => ⟨k, lexeme, .first⟩
    let ts : List Token := [token .floatWord "float", token .name "x", token .comma ",",
      token .name "x", token .semicolon ";", token .voidWord "void", token .name "f",
      token .leftParen "(", token .rightParen ")", token .leftBrace "\x7b",
      token .intWord "int", token .name "f", token .leftParen "(", token .rightParen ")",
      token .leftBrace "\x7b", token .voidWord "void", token .name "g", token .leftParen "(",
      token .rightParen ")", token .leftBrace "\x7b", token .rightBrace "\x7d",
      token .rightBrace "\x7d", token .rightBrace "\x7d"]
    let p : Program := [.declareVar "x" .float none .first, .declareVar "x" .float none .first,
      .declareFun "f" .void []
        [.declareFun "f" .int [] [.declareFun "g" .void [] [] .first] .first] .first]
    ofTokens ts = .ok p ∧ (Analysis.ofProgram p).symbols.globals = [("x", .float)] ∧
      (Analysis.ofProgram p).symbols.functions = [("f", ⟨.void, []⟩)] := by
  intro token ts p
  have hp : ofTokens ts = .ok p := by rfl
  obtain ⟨hglobals, hfunctions⟩ := symbols_of_ofTokens hp
  exact ⟨hp, hglobals.trans (by decide), hfunctions.trans (by decide)⟩

end Program
end MiniCheck
