import MiniCheck.Proofs.Token.Lexemes

/-!
# Lexemes with a blank between them

A lexeme holds no blank and no comment, and behind a blank nothing can begin a comment with
it. So a list of lexemes, written with one space between each two, is a text of which just
their characters stay, and it has these tokens if any text has them.
-/

namespace MiniCheck
namespace Token

open Trivia (Clear Keeps)

/-- The lexemes with one space between each two. -/
def spaced (cs : List (Kind × String)) : String := String.intercalate " " (cs.map Prod.snd)

section Lexeme

variable {k : Kind} {w : List Char}

/-- At the end of a text every lexeme is a token. -/
theorem IsLexeme.leads_nil (h : IsLexeme k w) : Leads k w [] :=
  h.leads fun _ hc => nomatch hc

theorem not_blank_of_isWordChar {c : Char} (h : IsWordChar c ∨ c = '.') :
    c ∉ [' ', '\t', '\r', '\n'] ∧ c ≠ '#' := by
  have hapart : ['#', ' ', '\t', '\r', '\n'].all fun d => ¬ (IsWordChar d ∨ d = '.') := by decide
  have hc : c ∉ ['#', ' ', '\t', '\r', '\n'] := fun hc =>
    of_decide_eq_true (List.all_eq_true.mp hapart c hc) h
  rw [List.mem_cons, not_or] at hc
  exact hc.symm

theorem IsLexeme.mem (h : IsLexeme k w) : ∀ c ∈ w, c ∉ [' ', '\t', '\r', '\n'] ∧ c ≠ '#' := by
  cases h with
  | number h =>
    exact fun c hc => not_blank_of_isWordChar ((h.mem c hc).imp_left isWordChar_of_isDigit)
  | name h _ => exact fun c hc => not_blank_of_isWordChar (.inl (h.mem c hc))
  | spelt h =>
    have hall : w.all fun c => c ∉ [' ', '\t', '\r', '\n'] ∧ c ≠ '#' :=
      of_spelling (P := fun _ w => w.all fun c => c ∉ [' ', '\t', '\r', '\n'] ∧ c ≠ '#')
        (by decide +kernel) h
    exact fun c hc => of_decide_eq_true (List.all_eq_true.mp hall c hc)

theorem IsLexeme.isChain_clear (h : IsLexeme k w) : w.IsChain Clear := by
  have hspelt : Spelt ⟨k, String.ofList w, .first⟩ := by
    obtain ⟨c, cs, rfl, _⟩ := h.exists_begins
    constructor
    · rw [String.toList_ofList]
      exact List.cons_ne_nil c cs
    · rw [String.toList_ofList]
      exact ⟨[], h.leads_nil⟩
  have hclear := hspelt.isChain_clear
  rw [String.toList_ofList] at hclear
  exact hclear

end Lexeme

variable {cs : List (Kind × String)}

theorem exists_keeps_spaced (h : ∀ c ∈ cs, IsLexeme c.1 c.2.toList) (before : List Char) :
    ∃ gs, Keeps before ([' '].intercalate (cs.map fun c => c.2.toList)) gs ∧
      chars gs = lexemeChars cs := by
  induction cs generalizing before with
  | nil => exact ⟨[], .nil, rfl⟩
  | cons c cs ih =>
    rw [List.forall_mem_cons] at h
    obtain ⟨hlexeme, hcs⟩ := h
    cases cs with
    | nil =>
      rw [List.map_singleton, List.intercalate_singleton, lexemeChars, List.flatMap_singleton]
      exact ⟨_, Trivia.keeps_all hlexeme.mem hlexeme.isChain_clear, Trivia.map_char_located⟩
    | cons d cs =>
      obtain ⟨gs, hgs, hchars⟩ := ih hcs (before ++ c.2.toList ++ [' '])
      have hrest := Keeps.blank (List.mem_cons_self : ' ' ∈ [' ', '\t', '\r', '\n']) hgs
      have hkeeps := Trivia.keeps_append hlexeme.mem hlexeme.isChain_clear ⟨by simp, by simp⟩ hrest
      rw [List.map_cons, List.map_cons, List.intercalate_cons_cons, List.append_assoc]
      refine ⟨_, hkeeps, ?_⟩
      have hfirst : chars (Trivia.located before c.2.toList) = c.2.toList :=
        Trivia.map_char_located
      rw [chars_append, hfirst, hchars]
      rfl

theorem toList_spaced (cs : List (Kind × String)) :
    (spaced cs).toList = [' '].intercalate (cs.map fun c => c.2.toList) := by
  rw [spaced, String.toList_intercalate, List.map_map]
  rfl

/-- The pairs of kinds and lexemes that come out of texts are those of which each lexeme is
one of its kind, no name or number stands in front of a name, a number or a keyword, and none
of `=`, `!`, `<` and `>` in front of `=` or `==`. All of them come out of their lexemes with
one space between each two. -/
theorem exists_ofText_iff (cs : List (Kind × String)) :
    ((∃ s ts, ofText s = .ok ts ∧ ts.map content = cs) ↔ Readable cs) ∧
      (Readable cs ↔ ∃ ts, ofText (spaced cs) = .ok ts ∧ ts.map content = cs) := by
  have hreadable : ∀ s ts, ofText s = .ok ts → ts.map content = cs → Readable cs := by
    rintro s ts hs rfl
    exact (scan_eq_ok_iff.mp hs).readable rfl
  have hspaced : Readable cs → ∃ ts, ofText (spaced cs) = .ok ts ∧ ts.map content = cs := by
    intro h
    obtain ⟨gs, hgs, hchars⟩ := exists_keeps_spaced h.lexemes []
    rw [← toList_spaced] at hgs
    obtain ⟨ts, hts, hcontent⟩ := h.exists_divides hchars
    refine ⟨ts, ?_, hcontent⟩
    -- What stays of the spaced text is known twice, as its material and as its lexemes.
    rw [ofText, Trivia.keeps_unique (keeps_material (spaced cs)) hgs]
    exact scan_eq_ok_iff.mpr hts
  constructor
  · constructor
    · rintro ⟨s, ts, hs, hcontent⟩
      exact hreadable s ts hs hcontent
    · intro h
      exact ⟨spaced cs, hspaced h⟩
  · constructor
    · exact hspaced
    · rintro ⟨ts, hts, hcontent⟩
      exact hreadable (spaced cs) ts hts hcontent

end Token
end MiniCheck
