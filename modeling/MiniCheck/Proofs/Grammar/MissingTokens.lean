import MiniCheck.Proofs.Grammar.SyntaxErrors
import MiniCheck.Proofs.Token.Lexemes
import MiniCheck.Proofs.Token.Tokenizing

/-!
# Where a missing token is reported

Where the tokens come to their end too early, the report points behind the last one, counted as
if its characters stood side by side. Blanks and comments can stand between them, and then the
end of the token lies further on.
-/

namespace MiniCheck

namespace Location

variable {before cs : List Char}

theorem afterText_append_of_not_mem (h : '\n' ∉ cs) :
    afterText (before ++ cs) = (afterText before).right cs.length := by
  induction cs generalizing before with
  | nil => rw [List.append_nil, List.length_nil, right_zero]
  | cons c cs ih =>
    rw [List.mem_cons, not_or] at h
    rw [List.append_cons, ih h.2, afterText_append_singleton, next_of_ne (Ne.symm h.1), right_right,
      List.length_cons, Nat.add_comm]

theorem before_right_of_lt (p : Location) {m n : Nat} (h : m < n) :
    (p.right m).Before (p.right n) :=
  .inr ⟨rfl, Nat.add_lt_add_left h p.column⟩

theorem not_before_self (p : Location) : ¬ p.Before p := by
  rintro (h | ⟨_, h⟩)
  · exact Nat.lt_irrefl _ h
  · exact Nat.lt_irrefl _ h

theorem before_afterText_append_of_mem (h : '\n' ∈ cs) (m n : Nat) :
    ((afterText before).right m).Before ((afterText (before ++ cs)).right n) := by
  refine .inl ?_
  change 1 + before.count '\n' < 1 + (before ++ cs).count '\n'
  have hpos := List.count_pos_iff.mpr h
  rw [List.count_append]
  omega

end Location

namespace Trivia

open Location (afterText)
open Token (chars)

variable {before cs : List Char} {gs : List Glyph} {g : Glyph}

theorem Keeps.newline_not_mem (h : Keeps before cs gs) : '\n' ∉ chars gs := by
  induction h with
  | nil => exact List.not_mem_nil
  | blank h hrest ih => exact ih
  | lineComment h hbody hend hrest ih => exact ih
  | blockComment hbody hrest ih => exact ih
  | openComment hbody => exact List.not_mem_nil
  | @kept before cs c gs hblank hline hslash hrest ih =>
    refine fun hmem => (List.mem_cons.mp hmem).elim ?_ ih
    rintro rfl
    exact hblank (by decide)

/-- The text is cut in front of one of the glyphs that it keeps. Some were kept in front of it, and
from there on the text keeps what it kept before. -/
def CutAt (before cs : List Char) (front : List Glyph) (g : Glyph) (behind : List Glyph) : Prop :=
  ∃ pre post, cs = pre ++ g.char :: post ∧ g.location = afterText (before ++ pre) ∧
    (chars front).Sublist pre ∧ Keeps (before ++ pre) (g.char :: post) (g :: behind)

theorem CutAt.append {front : List Glyph} (text : List Char)
    (h : CutAt (before ++ text) cs front g gs) : CutAt before (text ++ cs) front g gs := by
  obtain ⟨pre, post, rfl, hlocation, hfront, hkeeps⟩ := h
  rw [List.append_assoc] at hlocation hkeeps
  exact ⟨text ++ pre, post, (List.append_assoc _ _ _).symm, hlocation,
    hfront.trans (List.sublist_append_right _ _), hkeeps⟩

theorem Keeps.cutAt {front hs : List Glyph} (h : Keeps before cs hs)
    (heq : hs = front ++ g :: gs) : CutAt before cs front g gs := by
  induction h generalizing front with
  | nil => exact absurd heq.symm (List.append_ne_nil_of_right_ne_nil _ (List.cons_ne_nil _ _))
  | @blank before cs c hs h hrest ih => exact (ih heq).append [c]
  | lineComment h hbody hend hrest ih => exact (ih heq).append _
  | blockComment hbody hrest ih => exact (ih heq).append _
  | openComment hbody =>
    exact absurd heq.symm (List.append_ne_nil_of_right_ne_nil _ (List.cons_ne_nil _ _))
  | @kept before cs c hs hblank hline hslash hrest ih =>
    cases front with
    | nil =>
      obtain ⟨rfl, rfl⟩ := List.cons.inj heq
      refine ⟨[], cs, rfl, by rw [List.append_nil], List.Sublist.refl _, ?_⟩
      rw [List.append_nil]
      exact .kept hblank hline hslash hrest
    | cons first front =>
      obtain ⟨rfl, htail⟩ := List.cons.inj heq
      obtain ⟨pre, post, rfl, hlocation, hfront, hkeeps⟩ := ih htail
      rw [List.append_assoc, List.singleton_append] at hlocation hkeeps
      exact ⟨c :: pre, post, rfl, hlocation, hfront.cons_cons c, hkeeps⟩

end Trivia

namespace Token

open Location (afterText)

theorem IsLexeme.kind_ne_eof {k : Kind} {w : List Char} (h : IsLexeme k w) : k ≠ .eof := by
  rintro rfl
  cases h with
  | spelt h => cases h

section Divisions

variable {s : String} {gs rest : List Glyph} {ts : List Token} {t : Token}

theorem Divides.kind_ne_eof (h : Divides gs ts rest) : ∀ t ∈ ts, t.kind ≠ .eof := by
  induction h with
  | nil => exact nofun
  | cons h hrest ih => exact List.forall_mem_cons.mpr ⟨h.isLexeme.kind_ne_eof, ih⟩

/-- The last glyphs of all are those of the last token. -/
theorem Divides.exists_last (h : Divides gs ts rest) (hrest : rest = [])
    (ht : ts.getLast? = some t) :
    ∃ front g word, gs = front ++ g :: word ∧ t.location = g.location ∧
      t.lexeme.toList = chars (g :: word) := by
  induction h with
  | nil => cases ht
  | @cons k g front gs rest ts h hdivides ih =>
    cases ts with
    | nil =>
      cases ht
      subst hrest
      cases hdivides
      exact ⟨[], g, front, List.append_nil _, rfl, String.toList_ofList⟩
    | cons u ts =>
      obtain ⟨front', g', word, rfl, hlocation, hlexeme⟩ := ih hrest ht
      exact ⟨g :: front ++ front', g', word, (List.append_assoc _ _ _).symm, hlocation, hlexeme⟩

end Divisions

/-- In the text `s` the token `t` comes last. It begins behind `before`, and the last of its
characters is `last`, which stands behind `before ++ word`. -/
structure ComesLast (s : String) (t : Token) (before word : List Char) (last : Char) : Prop where
  text : before ++ (word ++ [last]) <+: s.toList
  location : t.location = afterText before
  last_kept : (material s).getLast? = some ⟨last, afterText (before ++ word)⟩
  lexeme : t.lexeme.toList.Sublist (word ++ [last])
  newline_not_mem : '\n' ∉ t.lexeme.toList

theorem exists_comesLast {s : String} {ts : List Token} {t : Token} (hs : ofText s = .ok ts)
    (ht : ts.getLast? = some t) : ∃ before word last, ComesLast s t before word last := by
  obtain ⟨front, g, glyphs, hmaterial, hlocation, hlexeme⟩ :=
    (scan_eq_ok_iff.mp hs).exists_last rfl ht
  -- The text is cut where the token begins, and from there on once more at its last glyph.
  obtain ⟨before, post, htext, hplace, _, hkeeps⟩ := (keeps_material s).cutAt hmaterial
  rw [List.nil_append] at hplace hkeeps
  obtain ⟨init, last, hglyphs⟩ := (List.eq_nil_or_concat' (g :: glyphs)).resolve_left
    (List.cons_ne_nil _ _)
  obtain ⟨word, after, hpost, hplace', hinit, _⟩ := hkeeps.cutAt hglyphs
  have hchars : chars (g :: glyphs) = chars init ++ [last.char] := by
    rw [hglyphs, chars_append]
    rfl
  refine ⟨before, word, last.char, ?_, hlocation.trans hplace, ?_, ?_, ?_⟩
  · rw [htext, hpost]
    exact ⟨after, by rw [List.append_assoc, List.append_assoc, List.singleton_append]⟩
  · rw [hmaterial, hglyphs, ← List.append_assoc, List.getLast?_concat, ← hplace']
  · rw [hlexeme, hchars]
    exact hinit.append_right [last.char]
  · rw [hlexeme]
    exact hkeeps.newline_not_mem

namespace ComesLast

variable {s : String} {t : Token} {before word : List Char} {last : Char}

/-- The end of the last token is told right if nothing stands between its characters, and else
too early. -/
theorem finish_or_before (h : ComesLast s t before word last) :
    (t.finish = (afterText (before ++ word)).right 1 ↔ t.lexeme.toList = word ++ [last]) ∧
      (t.finish = (afterText (before ++ word)).right 1 ∨
        t.finish.Before ((afterText (before ++ word)).right 1)) := by
  have hfinish : t.finish = (afterText before).right t.lexeme.toList.length := by
    rw [finish, h.location, String.length_toList]
  rw [hfinish]
  by_cases hword : t.lexeme.toList = word ++ [last]
  · have hline : '\n' ∉ word := fun hmem =>
      h.newline_not_mem (hword ▸ List.mem_append_left [last] hmem)
    have hend : (afterText before).right t.lexeme.toList.length =
        (afterText (before ++ word)).right 1 := by
      rw [Location.afterText_append_of_not_mem hline, Location.right_right, hword,
        List.length_append, List.length_singleton]
    exact ⟨iff_of_true hend hword, .inl hend⟩
  · have hbefore : ((afterText before).right t.lexeme.toList.length).Before
        ((afterText (before ++ word)).right 1) := by
      by_cases hline : '\n' ∈ word
      · exact Location.before_afterText_append_of_mem hline _ _
      · rw [Location.afterText_append_of_not_mem hline, Location.right_right]
        apply Location.before_right_of_lt
        have hle := h.lexeme.length_le
        rw [List.length_append, List.length_singleton] at hle
        refine Nat.lt_of_le_of_ne hle fun heq => hword (h.lexeme.eq_of_length ?_)
        rw [heq, List.length_append, List.length_singleton]
    refine ⟨iff_of_false (fun heq => ?_) hword, .inr hbefore⟩
    rw [heq] at hbefore
    exact Location.not_before_self _ hbefore

end ComesLast
end Token

namespace Program

open Grammar
open Location (afterText)

variable {s : String} {ts : List Token} {t : Token} {m : Mismatch} {d : Cursor}

theorem location_eq_finish (hts : ∀ t ∈ ts, t.kind ≠ .eof) (ht : ts.getLast? = some t)
    (hrun : Grammar.program (.ofTokens ts) = .error m d) (hend : d.rest = []) :
    m.location = t.finish := by
  obtain ⟨hreport, _⟩ := program_stuck hts hrun
  obtain ⟨_, _, hfinish, _⟩ := local_program (.ofTokens ts)
  rw [hrun, stopped_error] at hfinish
  rw [hreport.eq_mismatch]
  change d.location = t.finish
  rw [Cursor.location, hend, hfinish]
  simp only [Cursor.ofTokens, ht, List.head?_nil, Option.map_none, Option.map_some,
    Option.getD_none, Option.getD_some]

/-- Where reading fails at the end of the tokens of a text, the report points so many places
behind the beginning of the last token as that has characters. This is the place behind the last
character of the token if and only if the text has the characters side by side, and otherwise a
place in front of it. -/
theorem missing_token_location (hs : Token.ofText s = .ok ts) (ht : ts.getLast? = some t)
    (hrun : Grammar.program (.ofTokens ts) = .error m d) (hend : d.rest = []) :
    m.location = t.location.right t.lexeme.length ∧
      ∃ before word last, Token.ComesLast s t before word last ∧
        let behind := (afterText (before ++ word)).right 1
        (m.location = behind ↔ t.lexeme.toList = word ++ [last]) ∧
          (m.location = behind ∨ m.location.Before behind) := by
  have hts := (Token.scan_eq_ok_iff.mp hs).kind_ne_eof
  rw [location_eq_finish hts ht hrun hend]
  obtain ⟨before, word, last, hlast⟩ := Token.exists_comesLast hs ht
  exact ⟨rfl, before, word, last, hlast, hlast.finish_or_before⟩

/-- In `int a` and `b` on the next line the name `ab` ends in the second line, and the missing
semicolon is reported in the first one. -/
theorem missing_token_location_two_lines :
    ∃ ts t m d, Token.ofText "int a\nb" = .ok ts ∧ ts.getLast? = some t ∧
      Grammar.program (.ofTokens ts) = .error m d ∧ d.rest = [] ∧ m.location = ⟨1, 7⟩ ∧
      m.location = t.location.right t.lexeme.length ∧
      ∃ before word last, Token.ComesLast "int a\nb" t before word last ∧
        let behind := (afterText (before ++ word)).right 1
        (m.location = behind ↔ t.lexeme.toList = word ++ [last]) ∧
          (m.location = behind ∨ m.location.Before behind) := by
  let ts : List Token := [⟨.intWord, "int", ⟨1, 1⟩⟩, ⟨.name, "ab", ⟨1, 5⟩⟩]
  have hs : Token.ofText "int a\nb" = .ok ts := rfl
  have hrun : Grammar.program (.ofTokens ts) =
      .error ⟨[.semicolon], .eof, "", "after variable declaration", ⟨1, 7⟩⟩ ⟨[], 0, ⟨1, 7⟩⟩ := rfl
  exact ⟨ts, _, _, _, hs, rfl, hrun, rfl, rfl, missing_token_location hs rfl hrun rfl⟩

/-- In `int x = 5 5` the number `55` ends behind the second digit. -/
theorem not_missing_token_located_behind_last :
    ¬ ∀ (s : String) (ts : List Token) (m : Mismatch) (d : Cursor), Token.ofText s = .ok ts →
      ts ≠ [] → Grammar.program (.ofTokens ts) = .error m d → d.rest = [] →
        ∀ g ∈ (Token.material s).getLast?, m.location = g.location.right 1 := by
  intro h
  let ts : List Token := [⟨.intWord, "int", ⟨1, 1⟩⟩, ⟨.name, "x", ⟨1, 5⟩⟩, ⟨.equal, "=", ⟨1, 7⟩⟩,
    ⟨.number, "55", ⟨1, 9⟩⟩]
  have hs : Token.ofText "int x = 5 5" = .ok ts := rfl
  have hrun : Grammar.program (.ofTokens ts) =
      .error ⟨[.semicolon], .eof, "", "after variable declaration", ⟨1, 11⟩⟩
        ⟨[], 1, ⟨1, 11⟩⟩ := rfl
  have hlocation := h _ ts _ _ hs (List.cons_ne_nil _ _) hrun rfl ⟨'5', ⟨1, 11⟩⟩ rfl
  exact absurd hlocation (by decide)

end Program
end MiniCheck
