import MiniCheck.Proofs.Token.Tokenizing
import MiniCheck.Proofs.Tree.Relabelling

/-!
# Tokens are cut without regard to places

Which glyphs stay, and which tokens they are divided into, is decided by their characters
alone. Two texts that keep the same characters have the same tokens but for their places,
or fail at the same one.
-/

namespace MiniCheck

instance : Labelled Glyph := ⟨fun r g => { g with location := r.place g.location }⟩

instance : Labelled Token.Kind := ⟨fun _ k => k⟩

instance : Labelled Token := ⟨fun r t => { t with location := r.place t.location }⟩

instance : Labelled Token.ScanError where
  relabel
    | r, .unexpected c p => .unexpected c (r.place p)
    | r, .badNumber text p => .badNumber text (r.place p)

namespace Token

variable {r : Relabelling} {gs rest : List Glyph} {ts us : List Token}

theorem chars_relabel (r : Relabelling) (gs : List Glyph) : chars (relabel r gs) = chars gs := by
  induction gs with
  | nil => rfl
  | cons g gs ih => exact congrArg (List.cons g.char) ih

/-- Without their places only the characters are left. -/
theorem relabel_unplaced_iff {hs : List Glyph} :
    relabel .unplaced gs = relabel .unplaced hs ↔ chars gs = chars hs := by
  constructor
  · intro h
    rw [← chars_relabel .unplaced gs, h, chars_relabel]
  · have hglyphs : ∀ fs : List Glyph,
        relabel .unplaced fs = (chars fs).map fun c => ⟨c, .first⟩ := by
      intro fs
      unfold chars
      rw [List.map_map]
      rfl
    intro h
    rw [hglyphs, hglyphs, h]

theorem spelling_relabel (r : Relabelling) (gs : List Glyph) :
    Glyph.spelling (relabel r gs) = Glyph.spelling gs :=
  congrArg String.ofList (chars_relabel r gs)

/-! ## Dividing -/

theorem Divides.relabel (h : Divides gs ts rest) :
    Divides (relabel r gs) (relabel r ts) (relabel r rest) := by
  induction h with
  | nil => exact .nil
  | @cons k g front gs rest ts h hrest ih =>
    rw [← chars_relabel r (g :: front), ← chars_relabel r gs] at h
    have hcons := Divides.cons h ih
    change Divides (Labelled.relabel r (g :: front ++ gs))
      (⟨k, Glyph.spelling (g :: front), r.place g.location⟩ :: Labelled.relabel r ts) _
    rw [relabel_append, ← spelling_relabel r (g :: front)]
    exact hcons

theorem Stuck.relabel {e : ScanError} (h : Stuck gs e) : Stuck (relabel r gs) (relabel r e) := by
  cases h with
  | @badNumber g last front rest h hlast =>
    rw [← chars_relabel r (g :: front), ← chars_relabel r (last :: rest)] at h
    have hstuck := Stuck.badNumber h hlast
    change Stuck _ (.badNumber (Glyph.spelling (g :: front ++ [last])) (r.place g.location))
    rw [relabel_append, ← spelling_relabel r (g :: front ++ [last]), relabel_append]
    exact hstuck
  | @unexpected g rest hno hname =>
    rw [← chars_relabel r (g :: rest)] at hno hname
    exact .unexpected hno hname

/-- Relabelled glyphs are read like the glyphs themselves. -/
theorem scan_relabel (r : Relabelling) (gs : List Glyph) :
    (scan (relabel r gs)).1 = relabel r (scan gs).1 := by
  cases h : (scan gs).1 with
  | ok ts => exact scan_eq_ok_iff.mpr (scan_eq_ok_iff.mp h).relabel
  | error e =>
    obtain ⟨ts, rest, hdivides, hstuck⟩ := scan_eq_error_iff.mp h
    exact scan_eq_error_iff.mpr ⟨_, _, hdivides.relabel, hstuck.relabel⟩

/-- Texts that keep the same characters are read in the same way. -/
theorem ofText_unplaced_eq {s t : String} (h : chars (material s) = chars (material t)) :
    relabel .unplaced (ofText s) = relabel .unplaced (ofText t) := by
  unfold ofText
  rw [← scan_relabel, ← scan_relabel, relabel_unplaced_iff.mpr h]

end Token

/-! ## Blanks and comments -/

namespace Trivia

instance : Labelled Trivia where
  relabel
    | r, slash held => slash (relabel r held)
    | _, s => s

section Relabelled

variable (r : Relabelling) (g : Glyph)

theorem opening_relabel : opening (relabel r g) = relabel r (opening g) := by
  rw [opening, opening, apply_ite (relabel r), apply_ite (relabel r)]
  rfl

theorem keep_relabel : keep (relabel r g) = relabel r (keep g) := by
  rw [keep, keep, apply_ite (relabel r)]
  rfl

theorem next_relabel (s : Trivia) : (relabel r s).next (relabel r g) = relabel r (s.next g) := by
  have hchar : (relabel r g).char = g.char := rfl
  cases s with
  | code => exact opening_relabel r g
  | slash held =>
    have hslash : relabel r (slash held) = slash (relabel r held) := rfl
    rw [hslash, next, next, hchar, opening_relabel, apply_ite (relabel r), apply_ite (relabel r)]
    rfl
  | line => exact (apply_ite (relabel r) (g.char = '\n') code line).symm
  | block => exact (apply_ite (relabel r) (g.char = '*') star block).symm
  | star =>
    have hstar : relabel r star = star := rfl
    rw [hstar, next, next, hchar, apply_ite (relabel r), apply_ite (relabel r)]
    rfl

theorem emit_relabel (s : Trivia) : (relabel r s).emit (relabel r g) = relabel r (s.emit g) := by
  cases s with
  | code => exact keep_relabel r g
  | slash held =>
    have hchar : (relabel r g).char = g.char := rfl
    have hslash : relabel r (slash held) = slash (relabel r held) := rfl
    rw [hslash, emit, emit, hchar, keep_relabel, apply_ite (relabel r)]
    rfl
  | line => rfl
  | block => rfl
  | star => rfl

end Relabelled

theorem visibleFrom_relabel (r : Relabelling) (s : Trivia) (gs : List Glyph) :
    visibleFrom (relabel r s) (relabel r gs) = relabel r (visibleFrom s gs) := by
  induction gs generalizing s with
  | nil => cases s <;> rfl
  | cons g gs ih =>
    rw [relabel_cons, visibleFrom, visibleFrom, emit_relabel, next_relabel, ih, relabel_append]

/-- Outside comments, what stays of a text does not depend on where the text stands. -/
theorem chars_visible_eq {gs hs : List Glyph} (h : Token.chars gs = Token.chars hs) :
    Token.chars (visibleFrom code gs) = Token.chars (visibleFrom code hs) := by
  have hvisible := fun gs => visibleFrom_relabel .unplaced code gs
  have hcode : relabel .unplaced code = code := rfl
  rw [hcode] at hvisible
  rw [← Token.relabel_unplaced_iff] at h ⊢
  rw [← hvisible, ← hvisible, h]

end Trivia
end MiniCheck
