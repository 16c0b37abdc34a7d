import MiniCheck.Proofs.Token.Leading

/-!
# Scanning divides glyphs by the rules

A scan that ends well has divided all glyphs into tokens. One that fails has divided those
in front of the place where no token stands, and tells why none does.
-/

namespace MiniCheck
namespace Token

section Scan

variable {g : Glyph} {gs rest : List Glyph} {ts : List Token}

/-- One step of a division by the rules. -/
theorem scan_of_leads {k : Kind} {front : List Glyph}
    (h : Leads k (chars (g :: front)) (chars gs)) :
    (scan (g :: front ++ gs)).1 =
      (scan gs).1.map fun ts => ⟨k, Glyph.spelling (g :: front), g.location⟩ :: ts := by
  have hleading : leading g (front ++ gs) = _ := leading_of_leads h (chars_append (g :: front) gs)
  have hlength : (chars (g :: front)).length = (g :: front).length := List.length_map _
  have htake : (g :: (front ++ gs)).take (g :: front).length = g :: front := List.take_left
  rw [hlength] at hleading
  rw [List.cons_append, scan_of_ok hleading, htake]
  have hdrop : (front ++ gs).drop ((g :: front).length - 1) = gs := List.drop_left
  rw [hdrop]

theorem scan_of_divides (h : Divides gs ts rest) :
    (scan gs).1 = (scan rest).1.map fun us => ts ++ us := by
  induction h with
  | @nil gs =>
    cases (scan gs).1 <;> rfl
  | @cons k g front gs rest ts h hrest ih =>
    rw [scan_of_leads h, ih]
    cases (scan rest).1 <;> rfl

theorem scan_of_stuck {e : ScanError} (h : Stuck rest e) : (scan rest).1 = .error e := by
  cases rest with
  | nil =>
    generalize hnil : ([] : List Glyph) = hs at h
    cases h with
    | badNumber => exact absurd hnil (by simp)
    | unexpected => cases hnil
  | cons g gs => rw [scan_of_error (leading_of_stuck h)]

/-- Dividing goes on until nothing is left or no token stands at the front. -/
theorem exists_divides (gs : List Glyph) :
    ∃ ts rest, Divides gs ts rest ∧ (rest = [] ∨ ∃ e, Stuck rest e) := by
  induction hn : gs.length using Nat.strongRecOn generalizing gs with
  | ind n ih =>
    cases gs with
    | nil => exact ⟨[], [], .nil, .inl rfl⟩
    | cons g gs =>
      rcases leading_spec g gs with ⟨k, m, hleading, hleads⟩ | ⟨e, _, hstuck⟩
      · obtain ⟨hpos, _⟩ := leading_length hleading
        obtain ⟨m, rfl⟩ : ∃ i, m = i + 1 := ⟨m - 1, by omega⟩
        have hshorter : (gs.drop m).length < n := by
          rw [List.length_cons] at hn
          rw [List.length_drop]
          omega
        obtain ⟨ts, rest, hdivides, hrest⟩ := ih _ hshorter (gs.drop m) rfl
        have hfirst : Divides (g :: gs.take m ++ gs.drop m) _ rest := .cons hleads hdivides
        rw [List.cons_append, List.take_append_drop] at hfirst
        exact ⟨_, rest, hfirst, hrest⟩
      · exact ⟨[], g :: gs, .nil, .inr ⟨e, hstuck⟩⟩

theorem scan_eq_ok_iff : (scan gs).1 = .ok ts ↔ Divides gs ts [] := by
  constructor
  · intro h
    obtain ⟨us, rest, hdivides, hrest⟩ := exists_divides gs
    have hscan := scan_of_divides hdivides
    rcases hrest with rfl | ⟨e, hstuck⟩
    · rw [h, scan_nil] at hscan
      have heq : ts = us ++ [] := Except.ok.inj hscan
      rw [heq, List.append_nil]
      exact hdivides
    · rw [h, scan_of_stuck hstuck] at hscan
      cases hscan
  · intro h
    rw [scan_of_divides h, scan_nil]
    exact congrArg Except.ok (List.append_nil ts)

theorem scan_eq_error_iff {e : ScanError} :
    (scan gs).1 = .error e ↔ ∃ ts rest, Divides gs ts rest ∧ Stuck rest e := by
  constructor
  · intro h
    obtain ⟨ts, rest, hdivides, hrest⟩ := exists_divides gs
    have hscan := scan_of_divides hdivides
    rcases hrest with rfl | ⟨e', hstuck⟩
    · rw [h, scan_nil] at hscan
      cases hscan
    · rw [h, scan_of_stuck hstuck] at hscan
      have heq : e = e' := Except.error.inj hscan
      subst heq
      exact ⟨ts, rest, hdivides, hstuck⟩
  · rintro ⟨ts, rest, hdivides, hstuck⟩
    rw [scan_of_divides hdivides, scan_of_stuck hstuck]
    rfl

end Scan

/-! ## What tokens are made of -/

namespace Divides

variable {gs rest : List Glyph} {ts : List Token}

theorem chars_eq (h : Divides gs ts rest) :
    chars gs = (ts.flatMap fun t => t.lexeme.toList) ++ chars rest := by
  induction h with
  | nil => rfl
  | cons h hrest ih =>
    rw [chars_append, ih, List.flatMap_cons, List.append_assoc]
    congr 1
    exact (String.toList_ofList).symm

/-- A token is told by its first glyph where it stands. -/
theorem map_location_sublist (h : Divides gs ts rest) :
    (ts.map Token.location).Sublist (gs.map Glyph.location) := by
  induction h with
  | nil => exact List.nil_sublist _
  | @cons k g front gs rest ts h hrest ih =>
    rw [List.map_append, List.map_cons, List.map_cons, List.cons_append]
    exact (ih.trans (List.sublist_append_right _ _)).cons_cons _

theorem exists_glyph (h : Divides gs ts rest) {t : Token} (ht : t ∈ ts) :
    ∃ g ∈ gs, t.lexeme.toList.head? = some g.char ∧ t.location = g.location := by
  induction h with
  | nil => cases ht
  | @cons k g front gs rest ts h hrest ih =>
    rcases List.mem_cons.mp ht with rfl | ht
    · refine ⟨g, List.mem_append_left _ List.mem_cons_self, ?_, rfl⟩
      exact congrArg List.head? String.toList_ofList
    · obtain ⟨g', hg', hfirst⟩ := ih ht
      exact ⟨g', List.mem_append_right _ hg', hfirst⟩

end Divides

end Token
end MiniCheck
