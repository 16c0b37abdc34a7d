import MiniCheck.Proofs.Typing.Lookups
import MiniCheck.Proofs.Typing.Parallel

/-!
# Checks compare names and nothing else

A renamed program is checked like the program itself. Variables and functions have name
spaces of their own, so the ones can be renamed without regard to the others; it is enough
that names that differ go on to differ.
-/

namespace MiniCheck

/-- Entries with other keys. -/
def renameKeys {α : Type} (r : String → String) (entries : List (String × α)) :
    List (String × α) := entries.map fun e => (r e.1, e.2)

instance : Named SymbolTable := ⟨fun ρ t =>
  ⟨t.inner.map (renameKeys ρ.ofVariable), renameKeys ρ.ofVariable t.outermost,
    renameKeys ρ.ofFunction t.known⟩⟩

instance : Named Analysis := ⟨fun ρ a =>
  ⟨rename ρ a.symbols, rename ρ a.diagnostics, relabelTypes ρ.labels a.types⟩⟩

namespace SymbolTable

variable {ρ : Renaming}

theorem innermost_rename (t : SymbolTable) :
    (rename ρ t).innermost = renameKeys ρ.ofVariable t.innermost := by
  obtain ⟨inner, outermost, known⟩ := t
  cases inner with
  | nil => rfl
  | cons frame inner => rfl

theorem typeOf?_rename (h : ρ.Injective) (t : SymbolTable) (name : String) :
    (rename ρ t).typeOf? (ρ.ofVariable name) = t.typeOf? name := by
  have hframes : (rename ρ t).frames = t.frames.map (renameKeys ρ.ofVariable) := by
    unfold frames
    rw [List.map_append]
    rfl
  have hlookup : ∀ frame : Frame, (renameKeys ρ.ofVariable frame).lookup (ρ.ofVariable name) =
      frame.lookup name := fun frame => lookup_map_key h.ofVariable frame name
  unfold typeOf?
  rw [hframes, List.findSome?_map]
  exact congrArg (fun g => t.frames.findSome? g) (funext hlookup)

/-- A table answers about the new names what it did about the old ones. -/
theorem corresponds_rename (h : ρ.Injective) :
    Typing.Corresponds ρ (fun _ => True) fun t u => u = rename ρ t where
  push := by
    rintro t _ rfl
    rfl
  pop := by
    rintro ⟨inner, outermost, known⟩ _ rfl
    cases inner with
    | nil => rfl
    | cons frame inner => rfl
  typeOf? := by
    rintro t _ name rfl _
    exact typeOf?_rename h t name
  isSome_innermost := by
    rintro t _ name rfl _
    rw [innermost_rename, renameKeys, lookup_map_key h.ofVariable]
  bind := by
    rintro ⟨inner, outermost, known⟩ _ name rfl _ type
    cases inner with
    | nil => rfl
    | cons frame inner => rfl
  signatureOf? := by
    rintro t _ name rfl _
    exact lookup_map_key h.ofFunction t.known name
  learn := by
    rintro t _ name rfl _ signature
    rfl

end SymbolTable

namespace Analysis

open Function (Injective)

/-- The analysis of a renamed program is that of the program, renamed, whatever its labels are. -/
theorem ofProgram_rename_of_injective {ρ : Renaming} (h : ρ.Injective) (p : Program) :
    ofProgram (rename ρ p) = rename ρ (ofProgram p) := by
  have hstart : Walk.Alongside ρ (fun t u => u = rename ρ t) .nothing .nothing none .start
      .start := ⟨rfl, rfl, rfl, .nothing, rfl, rfl⟩
  obtain ⟨_, hsymbols, _, _, new, hnew, hnew'⟩ := Walk.parallel_visitAll
    (SymbolTable.corresponds_rename h) p (fun _ _ => trivial) _ _ hstart
  have hfindings : ∀ f : Findings, f.onto .nothing = f := by
    intro f
    simp only [Findings.onto, Findings.nothing, List.append_nil]
  rw [hfindings] at hnew hnew'
  rw [← hnew] at hnew'
  unfold ofProgram ofWalk
  simp only [StateT.run, hsymbols, hnew']
  simp only [rename, relabelTypes, List.map_reverse]

/-- A program in which the variables, the functions and the numbers of the expressions are
renamed, each in its own way, but so that what differs goes on to differ, has the analysis of the
program itself with just these names and numbers in it. -/
theorem ofProgram_rename {r g : String → String} {h : Nat → Nat} (hr : Injective r)
    (hg : Injective g) (hh : Injective h) (p : Program) :
    let ρ : Renaming := ⟨r, g, ⟨h, fun place => place⟩⟩
    ofProgram (rename ρ p) = rename ρ (ofProgram p) ∧
      ∀ i, (ofProgram (rename ρ p)).typeOf? (h i) = (ofProgram p).typeOf? i := by
  intro ρ
  have heq : ofProgram (rename ρ p) = rename ρ (ofProgram p) :=
    ofProgram_rename_of_injective ⟨hr, hg⟩ p
  refine ⟨heq, fun i => ?_⟩
  rw [heq]
  exact lookup_map_key hh (ofProgram p).types i

/-- A variable and a function of one name get different ones. -/
theorem ofProgram_rename_namesakes :
    let p : Program := [.declareVar "x" .int (some (.call "x" [.var "x" ⟨0, .first⟩] ⟨1, .first⟩))
      .first]
    let ρ : Renaming := ⟨fun name => "v" ++ name, fun name => "f" ++ name,
      ⟨fun i => i + 5, fun place => place⟩⟩
    ofProgram p = ⟨⟨[], [("x", .int)], []⟩, [⟨.undeclaredFunction "x", .first⟩],
        [(1, .unknown)]⟩ ∧
      ofProgram (rename ρ p) = ⟨⟨[], [("vx", .int)], []⟩, [⟨.undeclaredFunction "fx", .first⟩],
        [(6, .unknown)]⟩ := by
  intro p ρ
  have happend : ∀ s : String, Injective fun name => s ++ name := fun s _ _ h =>
    String.append_right_inj s |>.mp h
  have hp : ofProgram p = ⟨⟨[], [("x", .int)], []⟩, [⟨.undeclaredFunction "x", .first⟩],
      [(1, .unknown)]⟩ := rfl
  have hnumbers : Injective fun i => i + 5 := fun _ _ h => Nat.add_right_cancel h
  have hrename := (ofProgram_rename (happend "v") (happend "f") hnumbers p).1
  rw [hp] at hrename
  exact ⟨hp, hrename⟩

end Analysis
end MiniCheck
