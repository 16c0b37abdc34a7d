import MiniCheck.Proofs.Tree.Names
import MiniCheck.Proofs.Tree.WellFormed
import MiniCheck.Proofs.Typing.Symbols

/-!
# What a statement changes in a symbol table

A statement opens and closes frames in pairs, so it adds variables to the innermost frame alone,
whatever stands inside it. Functions go into the one table wherever they are declared. So a
declaration of a function changes no global variable, and no declaration changes what the names
mean that it does not declare.
-/

namespace MiniCheck
namespace SymbolTable

/-- From `t` to `u` as many frames are open, none but the innermost one has changed, and no
function has been declared but those among `names`. -/
structure Grows (names : List Symbol) (t u : SymbolTable) : Prop where
  length : u.inner.length = t.inner.length
  outermost : t.inner ≠ [] → u.outermost = t.outermost
  known : ∀ name, .ofFunction name ∉ names → u.known.lookup name = t.known.lookup name

namespace Grows

variable {names more : List Symbol} {t u v : SymbolTable}

theorem refl (names : List Symbol) (t : SymbolTable) : Grows names t t :=
  ⟨rfl, fun _ => rfl, fun _ _ => rfl⟩

theorem inner_ne_nil (h : Grows names t u) (ht : t.inner ≠ []) : u.inner ≠ [] := by
  rw [← List.length_pos_iff] at ht ⊢
  rw [h.length]
  exact ht

theorem trans (h : Grows names t u) (h' : Grows more u v) : Grows (names ++ more) t v := by
  refine ⟨h'.length.trans h.length, fun ht => ?_, fun name hname => ?_⟩
  · exact (h'.outermost (h.inner_ne_nil ht)).trans (h.outermost ht)
  · rw [List.mem_append, not_or] at hname
    exact (h'.known name hname.2).trans (h.known name hname.1)

/-- What has happened in a frame that is closed again has changed no other frame, be there any
frame but the global one or not. -/
theorem closed (h : Grows names t.push u) :
    Grows names t u.pop ∧ u.pop.outermost = t.outermost := by
  have houtermost : u.pop.outermost = t.outermost := h.outermost (List.cons_ne_nil _ _)
  refine ⟨⟨?_, fun _ => houtermost, h.known⟩, houtermost⟩
  have hlength : u.inner.length = t.inner.length + 1 := h.length
  rw [pop, List.length_tail, hlength, Nat.add_sub_cancel]

theorem declaring (t : SymbolTable) (names : List Symbol) (name : String) (type : BaseType)
    (p : Location) : Grows names t (t.declaring fun t => t.declareVariable name type p) := by
  rw [declaring_declareVariable]
  obtain ⟨inner, outermost, known⟩ := t
  split
  · exact refl _ _
  · cases inner with
    | nil => exact ⟨rfl, fun h => absurd rfl h, fun _ _ => rfl⟩
    | cons frame inner => exact ⟨rfl, fun _ => rfl, fun _ _ => rfl⟩

theorem parameters (params : List Param) : ∀ t : SymbolTable,
    Grows [] t (params.foldl withParameter t) := by
  induction params with
  | nil => exact fun t => refl [] t
  | cons p params ih =>
    intro t
    rw [List.foldl_cons]
    exact (declaring t [] p.name p.type p.location).trans (ih _)

/-- What a function leaves behind, if its body leaves `u` behind. -/
theorem function {params : List Param} (h : Grows names (t.inFunction params) u) :
    Grows names t u.pop.pop ∧ u.pop.pop.outermost = t.outermost :=
  ((parameters params t.push).trans h.closed.1).closed

end Grows

/-- A function changes no variable outside itself, not even among the global ones. -/
theorem grows_function {body : List Stmt}
    (h : ∀ t : SymbolTable, Grows (Stmt.allDeclares body) t (t.afterAll body)) (t : SymbolTable)
    (name : String) (returns : BaseType) (params : List Param) (p : Location) :
    Grows (Stmt.declareFun name returns params body p).declares t
        (t.after (.declareFun name returns params body p)) ∧
      (t.after (.declareFun name returns params body p)).outermost = t.outermost := by
  simp only [after, Stmt.declares, declareFunction]
  split
  -- A function that is refused leaves the table alone, for its body is skipped.
  case h_2 => exact ⟨.refl _ t, rfl⟩
  case h_1 t' ht' =>
    split at ht'
    · cases ht'
    · cases ht'
      obtain ⟨hgrows, houtermost⟩ := (h _).function
      refine ⟨⟨hgrows.length, fun _ => houtermost, fun other hother => ?_⟩, houtermost⟩
      simp only [List.mem_cons, List.mem_append, not_or, Symbol.ofFunction.injEq] at hother
      rw [hgrows.known other hother.2.2, List.lookup_cons, beq_eq_false_iff_ne.mpr hother.1]

mutual
theorem grows_after : (s : Stmt) → ∀ t : SymbolTable, Grows s.declares t (t.after s)
  | .declareVar name type init p, t => .declaring t _ name type p
  | .declareFun name returns params body p, t =>
    (grows_function (grows_afterAll body) t name returns params p).1
  | .block body p, t => by
    simp only [after]
    exact (grows_afterAll body t.push).closed.1
  | .branch e thenBody none p, t => by
    simp only [after]
    exact grows_after thenBody t
  | .branch e thenBody (some elseBody) p, t => by
    simp only [after]
    exact (grows_after thenBody t).trans (grows_after elseBody _)
  | .whileLoop e body p, t | .forLoop _ _ _ body p, t => by
    simp only [after]
    exact grows_after body t
  | .ret value p, t | .print value p, t | .expr value p, t => .refl _ t

theorem grows_afterAll : (body : List Stmt) → ∀ t : SymbolTable,
    Grows (Stmt.allDeclares body) t (t.afterAll body)
  | [], t => .refl _ t
  | s :: rest, t => by
    simp only [afterAll]
    exact (grows_after s t).trans (grows_afterAll rest _)
end

/-! ## Declarations at the top level -/

/-- The symbol means the same in both tables, if it is a global one. -/
def Agree (t u : SymbolTable) : Symbol → Prop
  | .ofVariable name => t.outermost.lookup name = u.outermost.lookup name
  | .ofFunction name => t.known.lookup name = u.known.lookup name

namespace Agree

variable {t u v : SymbolTable} {n : Symbol}

theorem refl (t : SymbolTable) (n : Symbol) : Agree t t n := by
  cases n with
  | ofVariable name => exact Eq.refl (t.outermost.lookup name)
  | ofFunction name => exact Eq.refl (t.known.lookup name)

theorem symm (h : Agree t u n) : Agree u t n := by
  cases n with
  | ofVariable name => exact Eq.symm h
  | ofFunction name => exact Eq.symm h

theorem trans (h : Agree t u n) (h' : Agree u v n) : Agree t v n := by
  cases n with
  | ofVariable name => exact Eq.trans h h'
  | ofFunction name => exact Eq.trans h h'

end Agree

end SymbolTable

namespace Stmt

/-- What a declaration at the top level declares for what follows it: a variable, or a function
and all those inside it. -/
def exports : Stmt → List Symbol
  | declareVar name _ _ _ => [.ofVariable name]
  | s => s.declares.filter Symbol.isFunction

theorem exports_subset_mentions (s : Stmt) : ∀ n ∈ s.exports, n ∈ s.mentions := by
  intro n hn
  apply s.declares_sublist.subset
  cases s with
  | declareVar name type init p => exact hn
  | _ => exact (List.mem_filter.mp hn).1

end Stmt

namespace SymbolTable

/-- Behind a declaration at the top level, what it does not declare means what it did before. -/
theorem agree_after {s : Stmt} (hs : s.isDeclaration = true) {t : SymbolTable}
    (ht : t.inner = []) {n : Symbol} (hn : n ∉ s.exports) : Agree t (t.after s) n := by
  cases s with
  | declareVar name type init p =>
    rw [Stmt.exports, List.mem_singleton] at hn
    simp only [after, declaring_declareVariable]
    split
    · exact .refl t n
    · rw [bind_of_inner_nil ht]
      cases n with
      | ofFunction other => exact Eq.refl (t.known.lookup other)
      | ofVariable other =>
        have hother : other ≠ name := fun heq => hn (congrArg Symbol.ofVariable heq)
        have hlookup : ((name, type) :: t.outermost).lookup other = t.outermost.lookup other := by
          rw [List.lookup_cons, beq_eq_false_iff_ne.mpr hother]
        exact hlookup.symm
  | declareFun name returns params body p =>
    obtain ⟨hgrows, houtermost⟩ := grows_function (grows_afterAll body) t name returns params p
    cases n with
    | ofVariable other => exact congrArg (fun frame : Frame => frame.lookup other) houtermost.symm
    | ofFunction other =>
      refine (hgrows.known other fun hmem => hn ?_).symm
      exact List.mem_filter.mpr ⟨hmem, rfl⟩
  | _ => cases hs

end SymbolTable
end MiniCheck
