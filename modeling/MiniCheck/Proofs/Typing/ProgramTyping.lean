import MiniCheck.Proofs.Tree.Numbering
import MiniCheck.Proofs.Typing.Lookups
import MiniCheck.Proofs.Typing.Refusing

/-!
# Programs are checked by the rules

A check of a whole program reports nothing exactly if the rules take the program, and
then it has recorded for each expression the type that the rules give, which is known.
-/

namespace MiniCheck
namespace Typing

mutual
theorem HasType.map_fst {Γ : Scope} {e : Expr} {t : ValueTy} {ns : Types} :
    HasType Γ e t ns → ns.map Prod.fst = e.ids
  | .binary hleft hright _ => by
    simp only [List.map_append, hleft.map_fst, hright.map_fst, Expr.ids]
    rfl
  | .not h => by
    simp only [List.map_append, h.map_fst, Expr.ids]
    rfl
  | .neg h _ => by
    simp only [List.map_append, h.map_fst, Expr.ids]
    rfl
  | .assign _ h _ => by
    simp only [List.map_append, h.map_fst, Expr.ids]
    rfl
  | .var _ => by
    simp only [Expr.ids]
    rfl
  | .integer _ => by
    simp only [Expr.ids]
    rfl
  | .decimal _ => by
    simp only [Expr.ids]
    rfl
  | .omitted => by
    simp only [Expr.ids]
    rfl
  | .call _ h => by
    simp only [List.map_append, h.map_fst, Expr.ids]
    rfl

theorem HaveTypes.map_fst {Γ : Scope} {args : List Expr} {params : List BaseType} {ns : Types} :
    HaveTypes Γ args params ns → ns.map Prod.fst = Expr.allIds args
  | .nil => by
    simp only [Expr.allIds]
    rfl
  | .cons h _ hrest => by
    simp only [List.map_append, h.map_fst, hrest.map_fst, Expr.allIds]
end

theorem ClauseTyped.map_fst {Γ : Scope} {Allowed : ValueTy → Prop} {e : Expr} {ns : Types}
    (h : ClauseTyped Γ Allowed e ns) : ns.map Prod.fst = e.idsIfGiven := by
  unfold Expr.idsIfGiven
  cases h with
  | omitted => rfl
  | given hgiven h _ =>
    simp only [hgiven, Bool.false_eq_true, ↓reduceIte]
    exact h.map_fst

mutual
/-- The rules come to every expression that is given. -/
theorem WellTyped.map_fst {ρ : Option BaseType} {Γ Δ : Scope} {s : Stmt} {ns : Types} :
    WellTyped ρ Γ s Δ ns → ns.map Prod.fst = s.idsBy Expr.idsIfGiven
  | .declare _ => by
    simp only [Stmt.idsBy]
    rfl
  | .declareInit _ h _ => by
    simp only [h.map_fst, Stmt.idsBy]
  | .function _ _ hbody => by
    simp only [hbody.map_fst, Stmt.idsBy]
  | .block h => by
    simp only [h.map_fst, Stmt.idsBy]
  | .branch h _ hthen => by
    simp only [List.map_append, h.map_fst, hthen.map_fst, Stmt.idsBy]
  | .branchElse h _ hthen helse => by
    simp only [List.map_append, h.map_fst, hthen.map_fst, helse.map_fst, Stmt.idsBy]
  | .whileLoop h _ hbody => by
    simp only [List.map_append, h.map_fst, hbody.map_fst, Stmt.idsBy]
  | .forLoop hinit h hupdate hbody => by
    simp only [List.map_append, hinit.map_fst, h.map_fst, hupdate.map_fst, hbody.map_fst,
      Stmt.idsBy]
  | .retOutside h => by
    simp only [h.map_fst, Stmt.idsBy]
  | .ret h _ => by
    simp only [h.map_fst, Stmt.idsBy]
  | .print h => by
    simp only [h.map_fst, Stmt.idsBy]
  | .expr h => by
    simp only [h.map_fst, Stmt.idsBy]

theorem AllWellTyped.map_fst {ρ : Option BaseType} {Γ Δ : Scope} {body : List Stmt} {ns : Types} :
    AllWellTyped ρ Γ body Δ ns → ns.map Prod.fst = Stmt.allIdsBy Expr.idsIfGiven body
  | .nil => by
    simp only [Stmt.allIdsBy]
    rfl
  | .cons h hrest => by
    simp only [List.map_append, h.map_fst, hrest.map_fst, Stmt.allIdsBy]
end

namespace ValueTy

theorem toTy_ne_unknown (t : ValueTy) : t.toTy ≠ .unknown := by
  cases t <;> decide

end ValueTy

/-- In a list of distinct numbers the type of each can be looked up. -/
theorem lookup_toTy_iff {ns : Types} (h : (ns.map Prod.fst).Nodup) (i : Nat) (t : Ty) :
    (ns.map fun n => (n.1, n.2.toTy)).lookup i = some t ↔ ∃ v, (i, v) ∈ ns ∧ v.toTy = t := by
  have hkeys : (ns.map fun n => (n.1, n.2.toTy)).map Prod.fst = ns.map Prod.fst := List.map_map
  rw [lookup_eq_some_iff_mem (hkeys ▸ h), List.mem_map]
  constructor
  · rintro ⟨⟨j, v⟩, hv, heq⟩
    cases heq
    exact ⟨v, hv, rfl⟩
  · rintro ⟨v, hv, rfl⟩
    exact ⟨(i, v), hv, rfl⟩

end Typing

namespace Analysis

open Typing

variable {p : Program}

theorem types_of_allWellTyped {Δ : Scope} {ns : Types}
    (h : AllWellTyped none Scope.start p Δ ns) :
    (ofProgram p).diagnostics = [] ∧ (ofProgram p).types = ns.map fun n => (n.1, n.2.toTy) := by
  have hreaches := Walk.reaches_visitAll p h Walk.start rfl SymbolTable.scope_empty
  have hfindings : ((Walk.visitAll p).run Walk.start).2.findings = _ := hreaches.findings
  unfold ofProgram ofWalk
  rw [hfindings]
  constructor
  · rfl
  · exact (congrArg List.reverse (List.append_nil _)).trans (List.reverse_reverse _)

theorem exists_allWellTyped (h : (ofProgram p).isOk = true) :
    ∃ Δ ns, AllWellTyped none Scope.start p Δ ns := by
  have hnil : (ofProgram p).diagnostics = [] := List.isEmpty_iff.mp h
  apply Walk.exists_allWellTyped p Walk.start
  exact List.reverse_eq_nil_iff.mp hnil

/-- A check finds nothing wrong exactly with programs that the rules take. It has then
looked at every expression that is given, and has found the type that the rules give,
which is never unknown. -/
theorem ofProgram_agrees (h : (Program.ids p).Nodup) :
    ((ofProgram p).isOk = true ↔ ∃ Δ ns, AllWellTyped none Scope.start p Δ ns) ∧
      ∀ Δ ns, AllWellTyped none Scope.start p Δ ns →
        ns.map Prod.fst = Program.givenIds p ∧
          (∀ i t, (ofProgram p).typeOf? i = some t ↔ ∃ v, (i, v) ∈ ns ∧ v.toTy = t) ∧
          ∀ i, (ofProgram p).typeOf? i ≠ some .unknown := by
  constructor
  · constructor
    · exact exists_allWellTyped
    · rintro ⟨Δ, ns, hp⟩
      exact List.isEmpty_iff.mpr (types_of_allWellTyped hp).1
  · intro Δ ns hp
    have hgiven : ns.map Prod.fst = Program.givenIds p := hp.map_fst
    have hnodup : (ns.map Prod.fst).Nodup := by
      rw [hgiven]
      exact h.sublist (Program.givenIds_sublist p)
    have htype : ∀ i t, (ofProgram p).typeOf? i = some t ↔ ∃ v, (i, v) ∈ ns ∧ v.toTy = t := by
      intro i t
      unfold typeOf?
      rw [(types_of_allWellTyped hp).2]
      exact lookup_toTy_iff hnodup i t
    refine ⟨hgiven, htype, ?_⟩
    intro i hunknown
    obtain ⟨v, _, hv⟩ := (htype i .unknown).mp hunknown
    exact v.toTy_ne_unknown hv

/-- The initializer of `float x = 1;` is an `int`, which fits. -/
theorem ofProgram_widened_initializer :
    (ofProgram [.declareVar "x" .float (some (.number "1" ⟨0, ⟨1, 11⟩⟩)) ⟨1, 7⟩]).isOk = true ∧
      (ofProgram [.declareVar "x" .float (some (.number "1" ⟨0, ⟨1, 11⟩⟩)) ⟨1, 7⟩]).typeOf? 0 =
        some .int := by
  have hp : AllWellTyped none Scope.start
      [.declareVar "x" .float (some (.number "1" ⟨0, ⟨1, 11⟩⟩)) ⟨1, 7⟩]
      (Scope.start.bind "x" .float) [(0, .int)] := by
    refine .cons (.declareInit ?_ (.integer (by decide)) (.widened rfl)) .nil
    intro frame hframe
    cases hframe
    rfl
  obtain ⟨hok, htypes⟩ := ofProgram_agrees
    (p := [.declareVar "x" .float (some (.number "1" ⟨0, ⟨1, 11⟩⟩)) ⟨1, 7⟩]) (by decide)
  refine ⟨hok.mpr ⟨_, _, hp⟩, ?_⟩
  exact ((htypes _ _ hp).2.1 0 .int).mpr ⟨.int, List.mem_cons_self, rfl⟩

end Analysis
end MiniCheck
