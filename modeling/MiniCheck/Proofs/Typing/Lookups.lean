import Mathlib.Data.List.Nodup
import Mathlib.Logic.Function.Basic

/-!
# Looking up in lists of entries

Where every key has one entry, it makes no difference in which order the entries are listed.
Other keys lead to the same values if keys that differ go on to differ.
-/

namespace MiniCheck

variable {α β γ : Type} [BEq α] {entries : List (α × γ)}

/-- One more entry keeps lists of entries alike. -/
theorem lookup_cons_congr {others : List (α × γ)} {key : α}
    (h : entries.lookup key = others.lookup key) (entry : α × γ) :
    (entry :: entries).lookup key = (entry :: others).lookup key := by
  rw [List.lookup_cons, List.lookup_cons, h]

variable [LawfulBEq α]

theorem lookup_of_mem (h : (entries.map Prod.fst).Nodup) {key : α} {value : γ}
    (hmem : (key, value) ∈ entries) : entries.lookup key = some value := by
  induction entries with
  | nil => cases hmem
  | cons first rest ih =>
    obtain ⟨hfirst, hrest⟩ := List.nodup_cons.mp h
    rw [List.lookup_cons]
    rcases List.mem_cons.mp hmem with rfl | hmem
    · simp
    · have hne : key ≠ first.1 := by
        rintro rfl
        exact hfirst (List.mem_map.mpr ⟨_, hmem, rfl⟩)
      rw [beq_eq_false_iff_ne.mpr hne]
      exact ih hrest hmem

theorem lookup_eq_some_iff_mem (h : (entries.map Prod.fst).Nodup) {key : α} {value : γ} :
    entries.lookup key = some value ↔ (key, value) ∈ entries := by
  constructor
  · intro hlookup
    obtain ⟨before, after, rfl, -⟩ := List.lookup_eq_some_iff.mp hlookup
    exact List.mem_append_right before List.mem_cons_self
  · exact lookup_of_mem h

theorem lookup_perm {others : List (α × γ)} (hperm : entries.Perm others)
    (h : (entries.map Prod.fst).Nodup) (key : α) : others.lookup key = entries.lookup key := by
  have hothers : (others.map Prod.fst).Nodup := (hperm.map Prod.fst).nodup_iff.mp h
  apply Option.ext
  intro value
  rw [lookup_eq_some_iff_mem h, lookup_eq_some_iff_mem hothers, hperm.mem_iff]

theorem lookup_map_key [BEq β] [LawfulBEq β] {g : α → β} (hg : Function.Injective g)
    (entries : List (α × γ)) (key : α) :
    (entries.map fun e => (g e.1, e.2)).lookup (g key) = entries.lookup key := by
  induction entries with
  | nil => rfl
  | cons e entries ih =>
    have hkey : (g key == g e.1) = (key == e.1) := by
      rw [Bool.eq_iff_iff, beq_iff_eq, beq_iff_eq, hg.eq_iff]
    rw [List.map_cons, List.lookup_cons, List.lookup_cons, hkey, ih]

end MiniCheck
