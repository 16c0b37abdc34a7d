import MiniCheck.Proofs.Typing.Lockstep

/-!
# Refused declarations do nothing

A declaration that the symbol table refuses is reported, and that is all that comes of it. So all
of them can be taken out of a program at once: what is left is checked as before, and just their
reports are missing. A parameter that is refused stays, for its type is part of the signature.
-/

namespace MiniCheck

/-! ## Lists with gaps -/

section Without

variable {α : Type}

/-- The list without what stands at some places. -/
def without (places : List Nat) (list : List α) : List α :=
  (list.zipIdx.filter fun a => a.2 ∉ places).map Prod.fst

variable {places : List Nat} {list : List α}

theorem without_append (h : ∀ i ∈ places, i < list.length) (more : List α) :
    without places (list ++ more) = without places list ++ more := by
  have hmore : (more.zipIdx (0 + list.length)).filter (fun a => a.2 ∉ places) =
      more.zipIdx (0 + list.length) := by
    refine List.filter_eq_self.mpr fun a ha => decide_eq_true fun hplace => ?_
    have hlower := List.le_snd_of_mem_zipIdx ha
    have hupper := h a.2 hplace
    omega
  unfold without
  rw [List.zipIdx_append, List.filter_append, List.map_append, hmore, List.zipIdx_map_fst]

theorem without_append_last (places : List Nat) (list : List α) (last : α) :
    without (places ++ [list.length]) (list ++ [last]) = without places list := by
  have hlist : list.zipIdx.filter (fun a => a.2 ∉ places ++ [list.length]) =
      list.zipIdx.filter fun a => a.2 ∉ places := by
    refine List.filter_congr fun a ha => ?_
    have hne : a.2 ≠ list.length := by
      have hupper := List.snd_lt_of_mem_zipIdx ha
      omega
    simp [hne]
  unfold without
  rw [List.zipIdx_append, List.filter_append, hlist]
  simp

end Without

namespace Walk

open Typing (Relates bind_run)

/-! ## What is left of a statement -/

def inFrame (w : Walk) : Walk := { w with symbols := w.symbols.push }

/-- The walk at the beginning of the body of a function. -/
def inFunction (w : Walk) (returns : BaseType) (params : List Param) : Walk :=
  (params.forM parameter { w.inFrame with returns := some returns }).2.inFrame

/-- The clauses of a loop, in the order in which they are checked. -/
def clauses (init e update : Expr) : StateM Walk Unit := do
  clause init evaluate
  clause e (condition .forLoop)
  clause update evaluate

mutual
/-- The statement with an empty block for each declaration that is refused when the walk comes to
it, and the reports of these refusals, each behind the number of reports in front of it. -/
def sift (w : Walk) : Stmt → Stmt × List (Nat × Diagnostic)
  | .declareVar name type init p =>
    match w.symbols.declareVariable name type p with
    | .ok _ => (.declareVar name type init p, [])
    | .error d => (.block [] p, [(w.diagnostics.length, d)])
  | .declareFun name returns params body p =>
    match w.symbols.declareFunction name ⟨returns, params.map Param.type⟩ p with
    | .ok symbols =>
      let sifted := siftAll ({ w with symbols }.inFunction returns params) body
      (.declareFun name returns params sifted.1 p, sifted.2)
    | .error d => (.block [] p, [(w.diagnostics.length, d)])
  | .block body p =>
    let sifted := siftAll w.inFrame body
    (.block sifted.1 p, sifted.2)
  | .branch e thenBody none p =>
    let sifted := sift (condition .ifBranch e w).2 thenBody
    (.branch e sifted.1 none p, sifted.2)
  | .branch e thenBody (some elseBody) p =>
    let inThen := (condition .ifBranch e w).2
    let sifted := sift inThen thenBody
    let siftedElse := sift (visit thenBody inThen).2 elseBody
    (.branch e sifted.1 (some siftedElse.1) p, sifted.2 ++ siftedElse.2)
  | .whileLoop e body p =>
    let sifted := sift (condition .whileLoop e w).2 body
    (.whileLoop e sifted.1 p, sifted.2)
  | .forLoop init e update body p =>
    let sifted := sift (clauses init e update w).2 body
    (.forLoop init e update sifted.1 p, sifted.2)
  | .ret value p => (.ret value p, [])
  | .print value p => (.print value p, [])
  | .expr value p => (.expr value p, [])

def siftAll (w : Walk) : List Stmt → List Stmt × List (Nat × Diagnostic)
  | [] => ([], [])
  | s :: rest =>
    let sifted := sift w s
    let siftedRest := siftAll (visit s w).2 rest
    (sifted.1 :: siftedRest.1, sifted.2 ++ siftedRest.2)
end

/-! ## Both walks -/

/-- The reports in the order in which they were made. -/
def reports (w : Walk) : List Diagnostic := w.diagnostics.reverse

/-- Two walks at one place, the first of which has reported the refusals in addition. -/
structure Sifted (refusals : List (Nat × Diagnostic)) (w w' : Walk) : Prop where
  symbols : w'.symbols = w.symbols
  returns : w'.returns = w.returns
  types : w'.findings.types = w.findings.types
  ordered : (refusals.map Prod.fst).Pairwise (· < ·)
  reported : ∀ r ∈ refusals, w.reports[r.1]? = some r.2
  left : w'.reports = without (refusals.map Prod.fst) w.reports

namespace Sifted

variable {refusals : List (Nat × Diagnostic)} {w w' : Walk}

theorem lt_length (h : Sifted refusals w w') : ∀ i ∈ refusals.map Prod.fst, i < w.reports.length := by
  intro i hi
  obtain ⟨r, hr, rfl⟩ := List.mem_map.mp hi
  exact (List.getElem?_eq_some_iff.mp (h.reported r hr)).1

theorem map_symbols (h : Sifted refusals w w') (f : SymbolTable → SymbolTable) :
    Sifted refusals { w with symbols := f w.symbols } { w' with symbols := f w'.symbols } :=
  ⟨congrArg f h.symbols, h.returns, h.types, h.ordered, h.reported, h.left⟩

theorem inside (h : Sifted refusals w w') (returns : Option BaseType) :
    Sifted refusals { w with returns } { w' with returns } :=
  ⟨h.symbols, rfl, h.types, h.ordered, h.reported, h.left⟩

/-- A step that looks at nothing found before reports the same in both walks. -/
theorem step (h : Sifted refusals w w') {x : StateM Walk Unit}
    (hx : ∀ {f f' returns}, Relates (Twins f f' returns) Eq x x) :
    Sifted refusals (x w).2 (x w').2 := by
  have htwins := (hx w w' (twins_of_eq h.symbols h.returns)).2
  obtain ⟨new, hnew, hnew'⟩ := htwins.exists_findings
  have hreports : (x w).2.reports = w.reports ++ new.diagnostics.reverse := by
    rw [reports, diagnostics, hnew]
    exact List.reverse_append
  have hreports' : (x w').2.reports = w'.reports ++ new.diagnostics.reverse := by
    rw [reports, diagnostics, hnew']
    exact List.reverse_append
  refine ⟨htwins.symbols.symm, htwins.second.trans htwins.first.symm, ?_, h.ordered, ?_, ?_⟩
  · rw [hnew, hnew']
    exact congrArg (fun types => new.types ++ types) h.types
  · intro r hr
    have hplace := h.lt_length r.1 (List.mem_map_of_mem hr)
    rw [hreports, List.getElem?_append_left hplace]
    exact h.reported r hr
  · rw [hreports, hreports', without_append h.lt_length, h.left]

theorem inFunction (h : Sifted refusals w w') (symbols : SymbolTable) (returns : BaseType)
    (params : List Param) : Sifted refusals ({ w with symbols }.inFunction returns params)
      ({ w' with symbols }.inFunction returns params) := by
  have hparams := ((h.map_symbols fun _ => symbols.push).inside (some returns)).step
    (twins_parameters params)
  exact hparams.map_symbols SymbolTable.push

/-- A refusal is reported in the first walk, and does not come up in the second. -/
theorem refuse (h : Sifted refusals w w') (d : Diagnostic) :
    Sifted (refusals ++ [(w.diagnostics.length, d)]) (report d.fault d.location w).2 w' := by
  have hreports : (report d.fault d.location w).2.reports = w.reports ++ [d] := List.reverse_cons
  have hlength : w.diagnostics.length = w.reports.length := List.length_reverse.symm
  refine ⟨h.symbols, h.returns, h.types, ?_, ?_, ?_⟩
  · rw [List.map_append, List.pairwise_append]
    refine ⟨h.ordered, List.pairwise_singleton _ _, fun i hi j hj => ?_⟩
    obtain rfl : j = w.diagnostics.length := List.mem_singleton.mp hj
    rw [hlength]
    exact h.lt_length i hi
  · intro r hr
    rw [hreports]
    rcases List.mem_append.mp hr with hr | hr
    · rw [List.getElem?_append_left (h.lt_length r.1 (List.mem_map_of_mem hr))]
      exact h.reported r hr
    · obtain rfl := List.mem_singleton.mp hr
      rw [hlength]
      exact List.getElem?_concat_length
  · rw [hreports, List.map_append, hlength]
    exact h.left.trans (without_append_last _ _ d).symm

end Sifted

theorem twins_clauses {f f' : Findings} {returns : Option BaseType} (init e update : Expr) :
    Relates (Twins f f' returns) Eq (clauses init e update) (clauses init e update) :=
  (twins_clause init (twins_evaluate init)).bind_eq fun _ =>
    (twins_clause e (twins_condition .forLoop e)).bind_eq fun _ =>
      twins_clause update (twins_evaluate update)

/-- The walk behind a function, if `u` is the one behind its body. -/
def leaveFunction (w u : Walk) : Walk :=
  { u with symbols := u.symbols.pop.pop, returns := w.returns }

theorem visit_declareFun_of_ok {w : Walk} {name : String} {returns : BaseType}
    {params : List Param} {p : Location} {symbols : SymbolTable}
    (h : w.symbols.declareFunction name ⟨returns, params.map Param.type⟩ p = .ok symbols)
    (body : List Stmt) :
    (visit (.declareFun name returns params body p) w).2 =
      w.leaveFunction (visitAll body ({ w with symbols }.inFunction returns params)).2 := by
  simp only [visit]
  rw [bind_run, declare_of_ok h]
  rfl

mutual
theorem sifted_visit : (s : Stmt) → ∀ {refusals : List (Nat × Diagnostic)} {w w' : Walk},
    Sifted refusals w w' →
      Sifted (refusals ++ (sift w s).2) (visit s w).2 (visit (sift w s).1 w').2
  | .declareVar name type init p, refusals, w, w', h => by
    simp only [sift]
    cases hd : w.symbols.declareVariable name type p with
    | ok symbols =>
      rw [List.append_nil]
      exact h.step (twins_visit _)
    | error d =>
      simp only [visit]
      rw [bind_run, declare_of_error hd]
      exact h.refuse d
  | .declareFun name returns params body p, refusals, w, w', h => by
    simp only [sift]
    cases hd : w.symbols.declareFunction name ⟨returns, params.map Param.type⟩ p with
    | ok symbols =>
      have hd' := hd
      rw [← h.symbols] at hd'
      have hbody := sifted_visitAll body (h.inFunction symbols returns params)
      have hleft := (hbody.map_symbols fun t => t.pop.pop).inside w.returns
      rw [visit_declareFun_of_ok hd, visit_declareFun_of_ok hd', leaveFunction, leaveFunction,
        h.returns]
      exact hleft
    | error d =>
      simp only [visit]
      rw [bind_run, declare_of_error hd]
      exact h.refuse d
  | .block body p, refusals, w, w', h => by
    have hbody := sifted_visitAll body (h.map_symbols SymbolTable.push)
    simp only [sift, visit]
    exact hbody.map_symbols SymbolTable.pop
  | .branch e thenBody none p, refusals, w, w', h => by
    simp only [sift, visit]
    exact sifted_visit thenBody (h.step (twins_condition .ifBranch e))
  | .branch e thenBody (some elseBody) p, refusals, w, w', h => by
    have hthen := sifted_visit thenBody (h.step (twins_condition .ifBranch e))
    have helse := sifted_visit elseBody hthen
    rw [List.append_assoc] at helse
    simp only [sift, visit]
    exact helse
  | .whileLoop e body p, refusals, w, w', h => by
    simp only [sift, visit]
    exact sifted_visit body (h.step (twins_condition .whileLoop e))
  | .forLoop init e update body p, refusals, w, w', h => by
    have hbody := sifted_visit body (h.step (twins_clauses init e update))
    simp only [sift, visit]
    exact hbody
  | .ret value p, refusals, w, w', h | .print value p, refusals, w, w', h
  | .expr value p, refusals, w, w', h => by
    simp only [sift]
    rw [List.append_nil]
    exact h.step (twins_visit _)

theorem sifted_visitAll : (body : List Stmt) → ∀ {refusals : List (Nat × Diagnostic)}
    {w w' : Walk}, Sifted refusals w w' →
      Sifted (refusals ++ (siftAll w body).2) (visitAll body w).2 (visitAll (siftAll w body).1 w').2
  | [], refusals, w, w', h => by
    simp only [siftAll, List.append_nil]
    exact h
  | s :: rest, refusals, w, w', h => by
    have hrest := sifted_visitAll rest (sifted_visit s h)
    rw [List.append_assoc] at hrest
    simp only [siftAll, visitAll]
    exact hrest
end

mutual
/-- In what is left of a statement no declaration is refused. -/
theorem refusals_sift : (s : Stmt) → ∀ {refusals : List (Nat × Diagnostic)} {w w' : Walk},
    Sifted refusals w w' → (sift w' (sift w s).1).2 = []
  | .declareVar name type init p, refusals, w, w', h => by
    simp only [sift]
    cases hd : w.symbols.declareVariable name type p with
    | ok symbols =>
      rw [← h.symbols] at hd
      simp only [sift, hd]
    | error d => simp only [sift, siftAll]
  | .declareFun name returns params body p, refusals, w, w', h => by
    simp only [sift]
    cases hd : w.symbols.declareFunction name ⟨returns, params.map Param.type⟩ p with
    | ok symbols =>
      rw [← h.symbols] at hd
      simp only [sift, hd]
      exact refusals_siftAll body (h.inFunction symbols returns params)
    | error d => simp only [sift, siftAll]
  | .block body p, refusals, w, w', h => by
    simp only [sift]
    exact refusals_siftAll body (h.map_symbols SymbolTable.push)
  | .branch e thenBody none p, refusals, w, w', h => by
    simp only [sift]
    exact refusals_sift thenBody (h.step (twins_condition .ifBranch e))
  | .branch e thenBody (some elseBody) p, refusals, w, w', h => by
    have hcondition := h.step (twins_condition .ifBranch e)
    simp only [sift]
    rw [refusals_sift thenBody hcondition, List.nil_append]
    exact refusals_sift elseBody (sifted_visit thenBody hcondition)
  | .whileLoop e body p, refusals, w, w', h => by
    simp only [sift]
    exact refusals_sift body (h.step (twins_condition .whileLoop e))
  | .forLoop init e update body p, refusals, w, w', h => by
    simp only [sift]
    exact refusals_sift body (h.step (twins_clauses init e update))
  | .ret value p, refusals, w, w', h | .print value p, refusals, w, w', h
  | .expr value p, refusals, w, w', h => by
    simp only [sift]

theorem refusals_siftAll : (body : List Stmt) → ∀ {refusals : List (Nat × Diagnostic)}
    {w w' : Walk}, Sifted refusals w w' → (siftAll w' (siftAll w body).1).2 = []
  | [], refusals, w, w', h => by
    simp only [siftAll]
  | s :: rest, refusals, w, w', h => by
    simp only [siftAll]
    rw [refusals_sift s h, List.nil_append]
    exact refusals_siftAll rest (sifted_visit s h)
end

end Walk

namespace Program

/-- The program with an empty block for each declaration in it that a check refuses. -/
def withoutRefused (p : Program) : Program := (Walk.siftAll Walk.start p).1

/-- The reports of the declarations that are refused, with their places among all reports. -/
def refusals (p : Program) : List (Nat × Diagnostic) := (Walk.siftAll Walk.start p).2

end Program

namespace Analysis

/-- Without the declarations that are refused, a program has the same symbols and its expressions
have the same types. The reports of the refusals are among those of the program, and the others
are the reports that are left. Nothing in what is left is refused. -/
theorem ofProgram_withoutRefused (p : Program) :
    let all := ofProgram p
    let left := ofProgram (Program.withoutRefused p)
    left.symbols = all.symbols ∧ left.types = all.types ∧
      ((Program.refusals p).map Prod.fst).Pairwise (· < ·) ∧
      (∀ r ∈ Program.refusals p, all.diagnostics[r.1]? = some r.2) ∧
      left.diagnostics = without ((Program.refusals p).map Prod.fst) all.diagnostics ∧
      Program.refusals (Program.withoutRefused p) = [] := by
  intro all left
  have hstart : Walk.Sifted [] Walk.start Walk.start :=
    ⟨rfl, rfl, rfl, .nil, fun _ h => absurd h List.not_mem_nil, rfl⟩
  have h := Walk.sifted_visitAll p hstart
  rw [List.nil_append] at h
  exact ⟨h.symbols, congrArg List.reverse h.types, h.ordered, h.reported, h.left,
    Walk.refusals_siftAll p hstart⟩

/-- The second `x` and the inner `f` are refused and go; the second `a` is refused too, but it is
a parameter and stays. -/
example :
    let body (s : Stmt) : List Stmt := [s, .ret (.var "b" ⟨1, ⟨5, 10⟩⟩) ⟨5, 3⟩]
    let p (second inner : Stmt) : Program := [.declareVar "x" .int none ⟨1, 5⟩, second,
      .declareFun "f" .int [⟨"a", .int, ⟨3, 11⟩⟩, ⟨"a", .float, ⟨3, 20⟩⟩] (body inner) ⟨3, 5⟩]
    let all := p (.declareVar "x" .float (some (.var "y" ⟨0, ⟨2, 11⟩⟩)) ⟨2, 7⟩)
      (.declareFun "f" .void [] [] ⟨4, 8⟩)
    Program.withoutRefused all = p (.block [] ⟨2, 7⟩) (.block [] ⟨4, 8⟩) ∧
      Program.refusals all =
        [(0, ⟨.duplicateVariable "x", ⟨2, 7⟩⟩), (2, ⟨.duplicateFunction "f", ⟨4, 8⟩⟩)] ∧
      (ofProgram (Program.withoutRefused all)).diagnostics =
        [⟨.duplicateVariable "a", ⟨3, 20⟩⟩, ⟨.undeclaredVariable "b", ⟨5, 10⟩⟩] :=
  ⟨rfl, rfl, rfl⟩

end Analysis
end MiniCheck
