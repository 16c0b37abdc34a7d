import Mathlib.Data.List.Chain
import MiniCheck.Proofs.Token.Relabelling

/-!
# Tokens written without gaps

The lexemes of a text, one right after the other, are a text again. Nothing is blank in it,
so it has the same tokens unless two operators that were apart now begin a comment.
-/

namespace MiniCheck

namespace Trivia

open Token (chars)

/-- The two characters do not begin a comment. -/
def Clear (c d : Char) : Prop := c = '/' → d ≠ '/' ∧ d ≠ '*'

variable {before cs : List Char} {gs : List Glyph}

theorem isChain_clear_iff :
    cs.IsChain Clear ↔ ¬ ['/', '/'] <:+: cs ∧ ¬ ['/', '*'] <:+: cs := by
  rw [List.isChain_iff_forall_rel_of_append_cons_cons]
  constructor
  · intro h
    constructor
    · rintro ⟨pre, post, rfl⟩
      exact (h (List.append_assoc pre _ _) rfl).1 rfl
    · rintro ⟨pre, post, rfl⟩
      exact (h (List.append_assoc pre _ _) rfl).2 rfl
  · rintro ⟨hslash, hstar⟩ c d pre post rfl rfl
    constructor
    · rintro rfl
      exact hslash ⟨pre, post, List.append_assoc pre ['/', '/'] post⟩
    · rintro rfl
      exact hstar ⟨pre, post, List.append_assoc pre ['/', '*'] post⟩

/-! ## Texts that are kept whole -/

theorem LineOpener.length_pos {opener : List Char} (h : LineOpener opener) : 0 < opener.length := by
  cases h with
  | inl h => rw [h]; exact Nat.one_pos
  | inr h => rw [h]; exact Nat.two_pos

/-- What stays is neither blank nor the beginning of a comment to the end of the line. -/
theorem Keeps.mem (h : Keeps before cs gs) :
    ∀ c ∈ chars gs, c ∉ [' ', '\t', '\r', '\n'] ∧ c ≠ '#' := by
  induction h with
  | nil => exact fun _ hc => absurd hc List.not_mem_nil
  | blank h hrest ih => exact ih
  | lineComment h hbody hend hrest ih => exact ih
  | blockComment hbody hrest ih => exact ih
  | openComment hbody => exact fun _ hc => absurd hc List.not_mem_nil
  | kept hblank hline hslash hrest ih =>
    intro c hc
    rcases List.mem_cons.mp hc with rfl | hc
    · exact ⟨hblank, hline⟩
    · exact ih c hc

/-- A word without comments is kept whole, if its last character begins none with what follows. -/
theorem keeps_append {rest : List Char} (h : ∀ c ∈ cs, c ∉ [' ', '\t', '\r', '\n'] ∧ c ≠ '#')
    (hclear : cs.IsChain Clear) (hhead : rest.head? ≠ some '/' ∧ rest.head? ≠ some '*')
    (hrest : Keeps (before ++ cs) rest gs) :
    Keeps before (cs ++ rest) (located before cs ++ gs) := by
  induction cs generalizing before with
  | nil =>
    rw [List.append_nil] at hrest
    exact hrest
  | cons c cs ih =>
    rw [List.isChain_cons] at hclear
    obtain ⟨hblank, hline⟩ := h c List.mem_cons_self
    have hslash : c = '/' → (cs ++ rest).head? ≠ some '/' ∧ (cs ++ rest).head? ≠ some '*' := by
      intro hc
      cases cs with
      | nil => exact hhead
      | cons d cs =>
        obtain ⟨hne, hne'⟩ := hclear.1 d rfl hc
        exact ⟨fun heq => hne (Option.some.inj heq), fun heq => hne' (Option.some.inj heq)⟩
    rw [located_cons]
    refine .kept hblank hline hslash (ih (fun d hd => h d (.tail c hd)) hclear.2 ?_)
    rw [List.append_assoc, List.singleton_append]
    exact hrest

theorem keeps_all (h : ∀ c ∈ cs, c ∉ [' ', '\t', '\r', '\n'] ∧ c ≠ '#')
    (hclear : cs.IsChain Clear) : Keeps before cs (located before cs) := by
  have hnil : Keeps (before ++ cs) [] [] := .nil
  have hwhole := keeps_append h hclear (by decide) hnil
  rw [List.append_nil, List.append_nil] at hwhole
  exact hwhole

theorem Keeps.length_le (h : Keeps before cs gs) : gs.length ≤ cs.length := by
  induction h with
  | nil => exact Nat.le_refl 0
  | blank h hrest ih => exact ih.trans (Nat.le_succ _)
  | lineComment h hbody hend hrest ih =>
    rw [List.length_append]
    omega
  | blockComment hbody hrest ih =>
    rw [List.length_append]
    omega
  | openComment hbody => exact Nat.zero_le _
  | kept hblank hline hslash hrest ih => exact Nat.succ_le_succ ih

/-- A text of which nothing is dropped has no comment. -/
theorem Keeps.isChain (h : Keeps before cs gs) (hlength : gs.length = cs.length) :
    cs.IsChain Clear := by
  induction h with
  | nil => exact .nil
  | blank h hrest ih =>
    have hle := hrest.length_le
    rw [List.length_cons] at hlength
    omega
  | lineComment h hbody hend hrest ih =>
    have hle := hrest.length_le
    have hopener := h.length_pos
    rw [List.length_append, List.length_append] at hlength
    omega
  | blockComment hbody hrest ih =>
    have hle := hrest.length_le
    simp only [List.length_append, List.length_cons] at hlength
    omega
  | openComment hbody => cases hlength
  | kept hblank hline hslash hrest ih =>
    rw [List.isChain_cons]
    refine ⟨fun d hd hc => ?_, ih (Nat.succ.inj hlength)⟩
    obtain ⟨hne, hne'⟩ := hslash hc
    exact ⟨fun heq => hne (heq ▸ hd), fun heq => hne' (heq ▸ hd)⟩

end Trivia

namespace Token

open Trivia (Clear)

/-! ## Slashes and stars in tokens -/

theorem IsNumber.mem {cs : List Char} (h : IsNumber cs) :
    ∀ c ∈ cs, c.isDigit = true ∨ c = '.' := by
  intro c hc
  cases h with
  | whole hne h => exact .inl (h c hc)
  | decimal hne h hne' h' =>
    rcases List.mem_append.mp hc with hc | hc
    · exact .inl (h c hc)
    · rcases List.mem_cons.mp hc with hc | hc
      · exact .inr hc
      · exact .inl (h' c hc)

theorem IsName.mem {cs : List Char} (h : IsName cs) :
    ∀ c ∈ cs, c.isAlphanum = true ∨ c = '_' := by
  intro c hc
  cases h with
  | intro h hrest =>
    rcases List.mem_cons.mp hc with rfl | hc
    · rcases h with h | h
      · exact .inl (Bool.or_eq_true _ _ ▸ .inl h)
      · exact .inr h
    · exact hrest c hc

namespace Leads

variable {k l : Kind} {c : Char} {front rest : List Char}

theorem eq_spelling (h : Leads k front rest) {w : String} (hk : k.spelling? = some w) :
    front = w.toList := by
  have hspelling : k.spelling?.map String.toList = some front → front = w.toList := by
    intro h
    rw [hk] at h
    exact (Option.some.inj h).symm
  cases h with
  | number h hrest => cases hk
  | pair hno hmem h => exact hspelling h
  | single hno hmem h => exact hspelling h
  | keyword hno hname hmem h => exact hspelling h
  | name hno h hkeyword => cases hk

/-- The operators that a comment could begin with, and how they are spelt. -/
def Opens (c : Char) (k : Kind) : Prop := (c, k) ∈ [('/', Kind.slash), ('*', Kind.star)]

theorem eq_singleton (h : Leads k front rest) (hopens : Opens c k) : front = [c] := by
  have hspelling : ∀ m ∈ [('/', Kind.slash), ('*', Kind.star)],
      m.2.spelling? = some (String.singleton m.1) := by
    decide +kernel
  rw [h.eq_spelling (hspelling (c, k) hopens), String.toList_singleton]

/-- A slash is in no token but the one it is spelt by, and neither is a star. -/
theorem kind_eq_of_mem (h : Leads k front rest) (hopens : Opens c l) (hc : c ∈ front) : k = l := by
  have hspelt : ∀ m ∈ [('/', Kind.slash), ('*', Kind.star)], ∀ k ∈ Kind.spelt,
      m.1 ∈ (k.spelling?.getD "").toList → k = m.2 := by
    decide +kernel
  have hother : ∀ m ∈ [('/', Kind.slash), ('*', Kind.star)],
      ¬ (m.1.isDigit = true ∨ m.1 = '.') ∧ ¬ (m.1.isAlphanum = true ∨ m.1 = '_') := by
    decide +kernel
  obtain ⟨hnumber, hname⟩ := hother (c, l) hopens
  have hspelling : k ∈ Kind.spelt → k.spelling?.map String.toList = some front → k = l := by
    intro hk h
    obtain ⟨w, hw, rfl⟩ := Option.map_eq_some_iff.mp h
    apply hspelt (c, l) hopens k hk
    rw [hw]
    exact hc
  cases h with
  | number h hrest => exact absurd (h.holds.mem c hc) hnumber
  | pair hno hmem h => exact hspelling (by simp [Kind.spelt, hmem]) h
  | single hno hmem h => exact hspelling (by simp [Kind.spelt, hmem]) h
  | keyword hno hname hmem h => exact hspelling (by simp [Kind.spelt, hmem]) h
  | name hno h hkeyword => exact absurd (h.holds.mem c hc) hname

end Leads

/-- The token was read somewhere, and not from nothing. -/
structure Spelt (t : Token) : Prop where
  ne_nil : t.lexeme.toList ≠ []
  leads : ∃ rest, Leads t.kind t.lexeme.toList rest

theorem Divides.spelt {gs rest : List Glyph} {ts : List Token} (h : Divides gs ts rest) :
    ∀ t ∈ ts, Spelt t := by
  induction h with
  | nil => exact fun _ ht => absurd ht List.not_mem_nil
  | @cons k g front gs rest ts h hrest ih =>
    intro t ht
    rcases List.mem_cons.mp ht with rfl | ht
    · have hlexeme : (Glyph.spelling (g :: front)).toList = chars (g :: front) :=
        String.toList_ofList
      constructor
      · rw [hlexeme]
        exact List.cons_ne_nil _ _
      · rw [hlexeme]
        exact ⟨chars gs, h⟩
    · exact ih t ht

namespace Spelt

variable {t u : Token} {c : Char} {k : Kind}

theorem head_iff (h : Spelt t) (hopens : Leads.Opens c k) :
    c ∈ t.lexeme.toList.head? ↔ t.kind = k := by
  obtain ⟨rest, hleads⟩ := h.leads
  constructor
  · intro hc
    exact hleads.kind_eq_of_mem hopens (List.mem_of_mem_head? hc)
  · rintro rfl
    rw [hleads.eq_singleton hopens]
    rfl

theorem last_iff (h : Spelt t) (hopens : Leads.Opens c k) :
    c ∈ t.lexeme.toList.getLast? ↔ t.kind = k := by
  obtain ⟨rest, hleads⟩ := h.leads
  constructor
  · intro hc
    exact hleads.kind_eq_of_mem hopens (List.mem_of_mem_getLast? hc)
  · rintro rfl
    rw [hleads.eq_singleton hopens]
    rfl

/-- No comment begins inside a token. -/
theorem isChain_clear (h : Spelt t) : t.lexeme.toList.IsChain Clear := by
  obtain ⟨rest, hleads⟩ := h.leads
  rw [List.isChain_iff_forall_rel_of_append_cons_cons]
  intro c d pre post heq hc
  have hopens : Leads.Opens '/' .slash := List.mem_cons_self
  have hmem : '/' ∈ t.lexeme.toList := by
    rw [heq, hc]
    exact List.mem_append_right pre List.mem_cons_self
  have hkind := hleads.kind_eq_of_mem hopens hmem
  rw [hkind] at hleads
  rw [hleads.eq_singleton hopens] at heq
  have hlength := congrArg List.length heq
  rw [List.length_append] at hlength
  simp only [List.length_cons, List.length_nil] at hlength
  omega

end Spelt

/-- Written without a gap, the two tokens do not begin a comment. -/
def Fits (t u : Token) : Prop := t.kind = .slash → u.kind ≠ .slash ∧ u.kind ≠ .star

section Gaps

variable {t u : Token} {ts : List Token}

theorem fits_iff (ht : Spelt t) (hu : Spelt u) :
    Fits t u ↔ ∀ c ∈ t.lexeme.toList.getLast?, ∀ d ∈ u.lexeme.toList.head?, Clear c d := by
  have hslash : Leads.Opens '/' .slash := List.mem_cons_self
  have hstar : Leads.Opens '*' .star := .tail _ List.mem_cons_self
  constructor
  · rintro h c hc d hd rfl
    obtain ⟨hne, hne'⟩ := h ((ht.last_iff hslash).mp hc)
    constructor
    · rintro rfl
      exact hne ((hu.head_iff hslash).mp hd)
    · rintro rfl
      exact hne' ((hu.head_iff hstar).mp hd)
  · intro h hkind
    have hlast := (ht.last_iff hslash).mpr hkind
    constructor
    · intro hu'
      exact (h _ hlast _ ((hu.head_iff hslash).mpr hu') rfl).1 rfl
    · intro hu'
      exact (h _ hlast _ ((hu.head_iff hstar).mpr hu') rfl).2 rfl

theorem isChain_lexemes_iff (h : ∀ t ∈ ts, Spelt t) :
    (ts.flatMap fun t => t.lexeme.toList).IsChain Clear ↔ ts.IsChain Fits := by
  induction ts with
  | nil => exact ⟨fun _ => .nil, fun _ => .nil⟩
  | cons t ts ih =>
    rw [List.forall_mem_cons] at h
    obtain ⟨ht, hts⟩ := h
    have hgap : (∀ u ∈ ts.head?, Fits t u) ↔ ∀ c ∈ t.lexeme.toList.getLast?,
        ∀ d ∈ (ts.flatMap fun t => t.lexeme.toList).head?, Clear c d := by
      cases ts with
      | nil => simp
      | cons u us =>
        rw [List.flatMap_cons, List.head?_append_of_ne_nil _ (hts u List.mem_cons_self).ne_nil,
          ← fits_iff ht (hts u List.mem_cons_self)]
        simp
    rw [List.flatMap_cons, List.isChain_append, List.isChain_cons, ih hts, hgap]
    constructor
    · intro h
      exact ⟨h.2.2, h.2.1⟩
    · intro h
      exact ⟨ht.isChain_clear, h.2, h.1⟩

end Gaps

/-! ## Reading again -/

/-- What a token is, wherever it stands. -/
def content (t : Token) : Kind × String := (t.kind, t.lexeme)

/-- The tokens as a text without a gap. -/
def joined (ts : List Token) : String := String.join (ts.map Token.lexeme)

section Joined

variable {s : String} {ts us : List Token}

theorem relabel_eq_iff_content :
    relabel .unplaced ts = relabel .unplaced us ↔ ts.map content = us.map content := by
  have hcontent : ∀ vs : List Token, (relabel .unplaced vs).map content = vs.map content := by
    intro vs
    exact List.map_map
  have hplaced : ∀ vs : List Token,
      relabel .unplaced vs = (vs.map content).map fun c => ⟨c.1, c.2, .first⟩ := by
    intro vs
    rw [List.map_map]
    rfl
  constructor
  · intro h
    rw [← hcontent, h, hcontent]
  · intro h
    rw [hplaced, h, hplaced]

theorem toList_joined (ts : List Token) :
    (joined ts).toList = ts.flatMap fun t => t.lexeme.toList := by
  rw [joined, String.toList_join, List.flatMap_map]

theorem joined_congr (h : us.map content = ts.map content) : joined us = joined ts := by
  have hlexeme : ∀ vs : List Token, vs.map Token.lexeme = (vs.map content).map Prod.snd := by
    intro vs
    rw [List.map_map]
    rfl
  rw [joined, joined, hlexeme, h, hlexeme]

theorem isChain_joined_iff (h : ofText s = .ok ts) :
    (joined ts).toList.IsChain Clear ↔ ts.IsChain Fits := by
  rw [toList_joined]
  exact isChain_lexemes_iff (scan_eq_ok_iff.mp h).spelt

/-- Without comments, the tokens as a text are read as the tokens. -/
theorem ofText_joined (h : ofText s = .ok ts) (hclear : (joined ts).toList.IsChain Clear) :
    ∃ us, ofText (joined ts) = .ok us ∧ us.map content = ts.map content := by
  have hjoined : joined ts = Glyph.spelling (material s) := join_lexemes (scan_eq_ok_iff.mp h)
  have hchars : (joined ts).toList = chars (material s) := by
    rw [hjoined, Glyph.spelling, String.toList_ofList]
    rfl
  have hwhole : Trivia.Keeps [] (joined ts).toList (Trivia.located [] (joined ts).toList) := by
    refine Trivia.keeps_all (fun c hc => ?_) hclear
    rw [hchars] at hc
    exact (keeps_material s).mem c hc
  have hmaterial := Trivia.keeps_unique (keeps_material (joined ts)) hwhole
  have hsame : chars (material (joined ts)) = chars (material s) := by
    rw [hmaterial, ← hchars]
    exact Trivia.map_char_located
  have hread := ofText_unplaced_eq hsame
  rw [h] at hread
  obtain ⟨us, hus, hunplaced⟩ := exists_ok_of_relabel_eq hread
  exact ⟨us, hus, relabel_eq_iff_content.mp hunplaced⟩

/-- If anything were dropped, too few characters would be left for the same lexemes. -/
theorem isChain_of_ofText_joined (h : ofText (joined ts) = .ok us)
    (hcontent : us.map content = ts.map content) : (joined ts).toList.IsChain Clear := by
  have hwhole : joined ts = Glyph.spelling (material (joined ts)) :=
    (joined_congr hcontent).symm.trans (join_lexemes (scan_eq_ok_iff.mp h))
  have hlength := congrArg (fun w => w.toList.length) hwhole
  simp only [Glyph.spelling, String.toList_ofList, List.length_map] at hlength
  exact (keeps_material (joined ts)).isChain hlength.symm

/-- The tokens of a text are read again from their lexemes alone, with the same kinds and the
same lexemes, exactly if these do not begin a comment where they meet: if no slash comes right
before a slash or a star. -/
theorem ofText_joined_iff (h : ofText s = .ok ts) :
    ((∃ us, ofText (joined ts) = .ok us ∧ us.map content = ts.map content) ↔
        ¬ ['/', '/'] <:+: (joined ts).toList ∧ ¬ ['/', '*'] <:+: (joined ts).toList) ∧
      (¬ ['/', '/'] <:+: (joined ts).toList ∧ ¬ ['/', '*'] <:+: (joined ts).toList ↔
        ts.IsChain fun t u => t.kind = .slash → u.kind ≠ .slash ∧ u.kind ≠ .star) := by
  rw [← Trivia.isChain_clear_iff]
  refine ⟨⟨?_, ofText_joined h⟩, isChain_joined_iff h⟩
  rintro ⟨us, hus, hcontent⟩
  exact isChain_of_ofText_joined hus hcontent

/-- Of `1 / / 2` the number alone would be read again. -/
theorem not_rereads_slashes : ∃ ts, ofText "1 / / 2" = .ok ts ∧
    ¬ ∃ us, ofText (joined ts) = .ok us ∧ us.map content = ts.map content := by
  have h : ofText "1 / / 2" = .ok [⟨.number, "1", ⟨1, 1⟩⟩, ⟨.slash, "/", ⟨1, 3⟩⟩,
    ⟨.slash, "/", ⟨1, 5⟩⟩, ⟨.number, "2", ⟨1, 7⟩⟩] := rfl
  refine ⟨_, h, fun hagain => ?_⟩
  have hno := (ofText_joined_iff h).1.mp hagain
  exact hno.1 (by decide +kernel)

end Joined

end Token
end MiniCheck
