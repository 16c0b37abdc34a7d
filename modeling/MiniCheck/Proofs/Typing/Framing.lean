import MiniCheck.Proofs.Typing.Lockstep
import MiniCheck.Proofs.Typing.Symbols

/-!
# Frames are closed as they were opened

A statement declares variables in the innermost frame alone, under names that are free there, and
closes every frame that it opens. Blocks and functions have frames of their own, so they leave
all variables around them as they were.
-/

namespace MiniCheck

/-- The list `old` with entries put in front of it, one after the other, under names that were
free. -/
inductive Enlarged {α : Type} (old : List (String × α)) : List (String × α) → Prop
  | refl : Enlarged old old
  | cons {new : List (String × α)} {name : String} (h : Enlarged old new)
      (hname : new.lookup name = none) (value : α) : Enlarged old ((name, value) :: new)

namespace Enlarged

variable {α : Type} {old new newer : List (String × α)}

theorem trans (h : Enlarged old new) (h' : Enlarged new newer) : Enlarged old newer := by
  induction h' with
  | refl => exact h
  | cons _ hname value ih => exact .cons ih hname value

theorem suffix (h : Enlarged old new) : old <:+ new := by
  induction h with
  | refl => exact List.suffix_refl old
  | cons _ hname value ih => exact ih.trans (List.suffix_cons _ _)

/-- An entry is never hidden by a newer one. -/
theorem lookup_eq_some (h : Enlarged old new) {name : String} {value : α}
    (hvalue : old.lookup name = some value) : new.lookup name = some value := by
  induction h with
  | refl => exact hvalue
  | @cons new other _ hother _ ih =>
    have hne : name ≠ other := by
      rintro rfl
      rw [hother] at ih
      cases ih
    rw [List.lookup_cons, beq_eq_false_iff_ne.mpr hne]
    exact ih

end Enlarged

namespace SymbolTable

theorem frames_eq_cons (t : SymbolTable) : t.frames = t.innermost :: t.frames.tail := by
  obtain ⟨inner, outermost, known⟩ := t
  cases inner with
  | nil => rfl
  | cons frame inner => rfl

theorem tail_frames_bind (t : SymbolTable) (name : String) (type : BaseType) :
    (t.bind name type).frames.tail = t.frames.tail := by
  obtain ⟨inner, outermost, known⟩ := t
  cases inner with
  | nil => rfl
  | cons frame inner => rfl

theorem known_bind (t : SymbolTable) (name : String) (type : BaseType) :
    (t.bind name type).known = t.known := by
  obtain ⟨inner, outermost, known⟩ := t
  cases inner with
  | nil => rfl
  | cons frame inner => rfl

/-- The global frame is the last one. -/
theorem globals_of_frames_eq {t u : SymbolTable} (h : u.frames = t.frames) :
    u.globals = t.globals := by
  have hlast := congrArg List.getLast? h
  simp only [frames, List.getLast?_append, List.getLast?_singleton, Option.some_or,
    Option.some.injEq] at hlast
  exact congrArg List.reverse hlast

/-- From `t` to `u` entries have been added to the innermost frame and to the functions, and
nothing else has happened. -/
structure Extends (t u : SymbolTable) : Prop where
  outer : u.frames.tail = t.frames.tail
  innermost : Enlarged t.innermost u.innermost
  known : Enlarged t.known u.known

namespace Extends

variable {t u v : SymbolTable}

theorem refl (t : SymbolTable) : Extends t t := ⟨rfl, .refl, .refl⟩

theorem trans (h : Extends t u) (h' : Extends u v) : Extends t v :=
  ⟨h'.outer.trans h.outer, h.innermost.trans h'.innermost, h.known.trans h'.known⟩

theorem depth_eq (h : Extends t u) : u.depth = t.depth := by
  rw [← length_frames, ← length_frames, frames_eq_cons u, frames_eq_cons t, h.outer,
    List.length_cons, List.length_cons]

theorem inner_nil (h : Extends t u) (ht : t.inner = []) : u.inner = [] := by
  have hlength : u.inner.length = t.inner.length := Nat.succ.inj h.depth_eq
  rw [ht] at hlength
  exact List.length_eq_zero_iff.mp hlength

theorem outermost (h : Extends t u) (ht : t.inner = []) :
    Enlarged t.outermost u.outermost := by
  rw [← innermost_of_inner_nil ht, ← innermost_of_inner_nil (h.inner_nil ht)]
  exact h.innermost

theorem of_frames_eq (h : u.frames = t.frames) (hknown : Enlarged t.known u.known) :
    Extends t u := by
  refine ⟨congrArg List.tail h, ?_, hknown⟩
  rw [frames_eq_cons u, frames_eq_cons t] at h
  rw [(List.cons.inj h).1]
  exact .refl

/-- What has been added to a frame goes away with it. -/
theorem frames_pop (h : Extends t.push u) : u.pop.frames = t.frames := by
  obtain ⟨inner, outermost, known⟩ := u
  cases inner with
  | nil =>
    have hnil : [] = t.frames := h.outer
    rw [frames_eq_cons] at hnil
    cases hnil
  | cons frame inner => exact h.outer

theorem pop (h : Extends t.push u) : Extends t u.pop := .of_frames_eq h.frames_pop h.known

theorem declaring (t : SymbolTable) (name : String) (type : BaseType) (p : Location) :
    Extends t (t.declaring fun t => t.declareVariable name type p) := by
  rw [declaring_declareVariable]
  split
  · exact refl t
  · rename_i hname
    refine ⟨t.tail_frames_bind name type, ?_, ?_⟩
    · rw [innermost_bind]
      exact .cons .refl (Option.not_isSome_iff_eq_none.mp hname) type
    · rw [known_bind]
      exact .refl

theorem parameters (params : List Param) : ∀ t : SymbolTable,
    Extends t (params.foldl withParameter t) := by
  induction params with
  | nil => exact refl
  | cons p params ih => exact fun t => (declaring t p.name p.type p.location).trans (ih _)

/-- A function has two frames, one for its parameters and one for its body. -/
theorem inFunction {params : List Param} (h : Extends (t.inFunction params) u) :
    Extends t.push u.pop := (parameters params t.push).trans h.pop

end Extends

section Statements

variable {body : List Stmt} (t : SymbolTable)

theorem extends_block (h : Extends t.push (t.push.afterAll body)) (p : Location) :
    (t.after (.block body p)).frames = t.frames ∧ Extends t (t.after (.block body p)) := by
  simp only [after]
  exact ⟨h.frames_pop, h.pop⟩

theorem extends_declareFun (h : ∀ t, Extends t (afterAll t body)) (name : String)
    (returns : BaseType) (params : List Param) (p : Location) :
    (t.after (.declareFun name returns params body p)).frames = t.frames ∧
      Extends t (t.after (.declareFun name returns params body p)) := by
  simp only [after, declareFunction]
  split
  -- A function that is refused is passed over.
  case h_2 => exact ⟨rfl, .refl t⟩
  case h_1 t' ht' =>
    split at ht'
    · cases ht'
    · rename_i hname
      cases ht'
      let signature : Signature := ⟨returns, params.map Param.type⟩
      let declared : SymbolTable := { t with known := (name, signature) :: t.known }
      have hknown : Enlarged t.known declared.known :=
        .cons .refl (Option.not_isSome_iff_eq_none.mp hname) signature
      have hinside := (h (declared.inFunction params)).inFunction
      exact ⟨hinside.frames_pop, .of_frames_eq hinside.frames_pop (hknown.trans hinside.known)⟩

mutual
theorem extends_after : (s : Stmt) → ∀ t : SymbolTable, Extends t (t.after s)
  | .declareVar name type init p, t => .declaring t name type p
  | .declareFun name returns params body p, t =>
    (extends_declareFun t (extends_afterAll body) name returns params p).2
  | .block body p, t => (extends_block t (extends_afterAll body t.push) p).2
  | .branch e thenBody none p, t => by
    simp only [after]
    exact extends_after thenBody t
  | .branch e thenBody (some elseBody) p, t => by
    simp only [after]
    exact (extends_after thenBody t).trans (extends_after elseBody _)
  | .whileLoop e body p, t | .forLoop _ _ _ body p, t => by
    simp only [after]
    exact extends_after body t
  | .ret value p, t | .print value p, t | .expr value p, t => .refl t

theorem extends_afterAll : (body : List Stmt) → ∀ t : SymbolTable, Extends t (t.afterAll body)
  | [], t => .refl t
  | s :: rest, t => by
    simp only [afterAll]
    exact (extends_after s t).trans (extends_afterAll rest _)
end

end Statements

end SymbolTable

namespace Walk

open SymbolTable (extends_after extends_afterAll)

/-- A check comes out of every statement as deep inside frames and functions as it went in, with
all frames around the innermost one untouched and entries under free names added to that one.
Blocks and functions leave all frames as they were, and so the globals. A check of a program
ends in the global frame. -/
theorem visit_keeps_frames :
    (∀ (s : Stmt) (w : Walk),
      (visit s w).2.symbols.depth = w.symbols.depth ∧
        (visit s w).2.symbols.frames.tail = w.symbols.frames.tail ∧
        Enlarged w.symbols.innermost (visit s w).2.symbols.innermost ∧
        (visit s w).2.returns = w.returns) ∧
      (∀ (body : List Stmt) (p : Location) (w : Walk),
        (visit (.block body p) w).2.symbols.frames = w.symbols.frames) ∧
      (∀ (name : String) (returns : BaseType) (params : List Param) (body : List Stmt)
        (p : Location) (w : Walk), let w' := (visit (.declareFun name returns params body p) w).2
        w'.symbols.frames = w.symbols.frames ∧ w'.symbols.globals = w.symbols.globals) ∧
      ∀ p : Program, (Analysis.ofProgram p).symbols.depth = 1 := by
  refine ⟨fun s w => ?_, fun body p w => ?_, fun name returns params body p w => ?_, fun p => ?_⟩
  · have hextends := extends_after s w.symbols
    rw [symbols_visit]
    exact ⟨hextends.depth_eq, hextends.outer, hextends.innermost, returns_visit s w⟩
  · rw [symbols_visit]
    exact (SymbolTable.extends_block w.symbols (extends_afterAll body _) p).1
  · have hframes := (SymbolTable.extends_declareFun w.symbols (extends_afterAll body) name returns
      params p).1
    rw [← symbols_visit] at hframes
    exact ⟨hframes, SymbolTable.globals_of_frames_eq hframes⟩
  · have hextends := extends_afterAll p Walk.start.symbols
    rw [← symbols_visitAll] at hextends
    exact hextends.depth_eq

end Walk
end MiniCheck
