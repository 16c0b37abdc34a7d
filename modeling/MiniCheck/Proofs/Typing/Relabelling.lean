import MiniCheck.Proofs.Typing.Renaming

/-!
# Checks never look at places or numbers

A relabelled program is checked like the program itself. The same faults are found in the
same order and the same types are recorded, each under its new labels.
-/

namespace MiniCheck

instance : Labelled Diagnostic := ⟨fun r d => { d with location := r.place d.location }⟩

instance : Labelled Analysis := ⟨fun r a =>
  ⟨a.symbols, relabel r a.diagnostics, relabelTypes r a.types⟩⟩

section Labels

variable (r : Relabelling)

theorem symbols_rename_ofLabels (t : SymbolTable) : rename (.ofLabels r) t = t := by
  have hframes : t.inner.map (renameKeys fun name => name) = t.inner :=
    (List.map_congr_left fun frame _ => List.map_id frame).trans (List.map_id t.inner)
  change SymbolTable.mk (t.inner.map (renameKeys fun name => name))
    (t.outermost.map fun e => e) (t.known.map fun e => e) = t
  rw [hframes, List.map_id', List.map_id']

theorem diagnostic_rename_ofLabels (d : Diagnostic) : rename (.ofLabels r) d = relabel r d := by
  obtain ⟨fault, p⟩ := d
  cases fault <;> rfl

end Labels

namespace Analysis

/-- The analysis of a relabelled program is that of the program, relabelled. -/
theorem ofProgram_relabel (r : Relabelling) (p : Program) :
    ofProgram (relabel r p) = relabel r (ofProgram p) := by
  have hrename := ofProgram_rename_of_injective (Renaming.injective_ofLabels r) p
  have hdiagnostics : ∀ ds : List Diagnostic, rename (.ofLabels r) ds = relabel r ds :=
    fun ds => List.map_congr_left fun d _ => diagnostic_rename_ofLabels r d
  have hanalysis : ∀ a : Analysis, rename (.ofLabels r) a = relabel r a := by
    intro a
    change Analysis.mk (rename (.ofLabels r) a.symbols) (rename (.ofLabels r) a.diagnostics)
      (relabelTypes r a.types) = _
    rw [symbols_rename_ofLabels, hdiagnostics]
    rfl
  rw [program_rename_ofLabels, hanalysis] at hrename
  exact hrename

end Analysis
end MiniCheck
