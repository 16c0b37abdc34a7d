import MiniCheck.Proofs.Typing.Swapping

/-!
# A check takes nothing back

A check goes over a program once, from the front to the back. What it has found in the first
statements it keeps when more of them follow: nothing is reported otherwise, nothing gets
another type and no name another meaning.
-/

namespace MiniCheck

namespace Walk

section Behind

variable {w : Walk} {body : List Stmt}

theorem extends_behind (w : Walk) (body : List Stmt) :
    w.symbols.Extends (w.behind body).symbols := by
  rw [symbols_behind]
  exact SymbolTable.extends_afterAll body w.symbols

/-- Behind some statements types are recorded for expressions inside them alone. -/
theorem exists_types_behind (w : Walk) (body : List Stmt) :
    ∃ new : Findings, (w.behind body).findings = new.onto w.findings ∧
      ∀ n ∈ new.recorded, n ∈ Stmt.allIdsBy Expr.ids body := by
  obtain ⟨new, hnew⟩ := exists_findings_visitAll body w
  have haccounts := accounts_visitAll body w
  have hrecorded : (visitAll body w).2.recorded = new.recorded ++ w.recorded := by
    rw [recorded, hnew]
    exact List.map_append
  unfold AccountsWalk Typing.Accounts at haccounts
  rw [hrecorded, List.append_assoc] at haccounts
  have hperm : (w.recorded ++ (new.recorded ++ Stmt.allSkipped w.symbols body)).Perm
      (w.recorded ++ Stmt.allIdsBy Expr.ids body) :=
    (List.perm_append_comm_assoc _ _ _).trans haccounts
  refine ⟨new, hnew, fun n hn => ?_⟩
  exact ((List.perm_append_left_iff _).mp hperm).subset (List.mem_append_left _ hn)

end Behind

end Walk

namespace Analysis

variable (xs ys : Program)

theorem extends_append : (ofProgram xs).symbols.Extends (ofProgram (xs ++ ys)).symbols := by
  rw [ofProgram_append]
  exact (Walk.start.behind xs).extends_behind ys

/-- What the rest of a program adds to the findings in its beginning. -/
theorem exists_findings_append : ∃ new : Findings,
    (ofProgram (xs ++ ys)).diagnostics =
        (ofProgram xs).diagnostics ++ new.diagnostics.reverse ∧
      (∀ i, (ofProgram (xs ++ ys)).typeOf? i =
        ((ofProgram xs).typeOf? i).or (new.types.reverse.lookup i)) ∧
      ∀ n ∈ new.recorded, n ∈ Program.ids ys := by
  let w := Walk.start.behind xs
  obtain ⟨new, hnew, hids⟩ := w.exists_types_behind ys
  rw [ofProgram_append]
  refine ⟨new, ?_, fun i => ?_, hids⟩
  · rw [ofWalk, hnew]
    exact reverse_diagnostics_onto new w.findings
  · have htypes : (ofWalk (w.behind ys)).types = (ofProgram xs).types ++ new.types.reverse := by
      rw [ofWalk, hnew]
      exact List.reverse_append
    rw [typeOf?, htypes, List.lookup_append]
    rfl

variable {xs ys}

/-- The analysis of the beginning of a program is part of that of the program: the reports come
first, and so do the globals and the functions. The types of the expressions in the beginning and
the meanings of the names that are known behind it stay the same. -/
theorem ofProgram_keeps (h : (Program.ids (xs ++ ys)).Nodup) :
    let before := ofProgram xs
    let all := ofProgram (xs ++ ys)
    before.diagnostics <+: all.diagnostics ∧
      before.symbols.globals <+: all.symbols.globals ∧
      before.symbols.functions <+: all.symbols.functions ∧
      (∀ i t, before.typeOf? i = some t → all.typeOf? i = some t) ∧
      (∀ i ∈ Program.ids xs, before.typeOf? i = none → all.typeOf? i = none) ∧
      (∀ name type, before.symbols.typeOf? name = some type →
        all.symbols.typeOf? name = some type) ∧
      ∀ name signature, before.symbols.signatureOf? name = some signature →
        all.symbols.signatureOf? name = some signature := by
  intro before all
  have hextends : before.symbols.Extends all.symbols := extends_append xs ys
  have hinner : before.symbols.inner = [] := (Walk.AtTop.behind ⟨rfl, rfl⟩ xs).inner
  have hglobals := hextends.outermost hinner
  obtain ⟨new, hdiagnostics, htypes, hids⟩ := exists_findings_append xs ys
  refine ⟨?_, ?_, ?_, fun i t hi => ?_, fun i hi hnone => ?_, fun name type hname => ?_,
    fun name signature => hextends.known.lookup_eq_some⟩
  · rw [hdiagnostics]
    exact List.prefix_append _ _
  · exact List.reverse_prefix.mpr hglobals.suffix
  · exact List.reverse_prefix.mpr hextends.known.suffix
  · rw [htypes, hi, Option.some_or]
  · -- No expression of the rest has the same number.
    rw [htypes, hnone, Option.none_or, List.lookup_eq_none_iff]
    intro n hn
    rw [Program.ids, Stmt.allIdsBy_append] at h
    have hne := (List.nodup_append.mp h).2.2 i hi n.1
      (hids n.1 (List.mem_map_of_mem (List.mem_reverse.mp hn)))
    exact bne_iff_ne.mpr hne
  · rw [SymbolTable.typeOf?_of_inner_nil hinner] at hname
    rw [SymbolTable.typeOf?_of_inner_nil (hextends.inner_nil hinner)]
    exact hglobals.lookup_eq_some hname

/-- That `y` was missing in `int x = y;` is still reported, and `x` is still an `int`, with
`int y; float x = y;` behind it. -/
theorem ofProgram_keeps_missing :
    let xs : Program := [.declareVar "x" .int (some (.var "y" ⟨0, ⟨1, 9⟩⟩)) ⟨1, 5⟩]
    let ys : Program := [.declareVar "y" .int none ⟨2, 5⟩,
      .declareVar "x" .float (some (.var "y" ⟨1, ⟨3, 11⟩⟩)) ⟨3, 7⟩]
    (Program.ids (xs ++ ys)).Nodup ∧
      (ofProgram xs).diagnostics = [⟨.undeclaredVariable "y", ⟨1, 9⟩⟩] ∧
      (ofProgram xs).diagnostics <+: (ofProgram (xs ++ ys)).diagnostics ∧
      (ofProgram (xs ++ ys)).symbols.typeOf? "x" = some .int ∧
      (ofProgram (xs ++ ys)).typeOf? 0 = some .unknown := by
  intro xs ys
  have hids : (Program.ids (xs ++ ys)).Nodup := by decide
  obtain ⟨hreports, _, _, htypes, _, hnames, _⟩ := ofProgram_keeps hids
  exact ⟨hids, rfl, hreports, hnames "x" .int rfl, htypes 0 .unknown rfl⟩

end Analysis
end MiniCheck
