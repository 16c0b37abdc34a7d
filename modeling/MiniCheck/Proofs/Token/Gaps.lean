import MiniCheck.Proofs.Token.Relabelling

/-!
# Gaps in a text

Blanks and whole comments can be put anywhere outside comments, also in the middle of a
token: the same characters stay. Only behind a slash they must not begin like a comment
themselves, and neither must what follows them.
-/

namespace MiniCheck
namespace Trivia

open Token (chars material)

/-- Blanks, a comment with the line feed that ends it, or a comment of the other sort. -/
inductive Gap : List Char → Prop
  | blanks {cs : List Char} (h : ∀ c ∈ cs, c ∈ [' ', '\t', '\r', '\n']) : Gap cs
  | lineComment {opener body : List Char} (h : LineOpener opener) (hbody : '\n' ∉ body) :
      Gap (opener ++ body ++ ['\n'])
  | blockComment {body : List Char} (hbody : ¬ ['*', '/'] <:+: body ++ ['*']) :
      Gap (['/', '*'] ++ body ++ ['*', '/'])

/-- The text ends outside any comment. -/
inductive Closed : List Char → Prop
  | nil : Closed []
  | blank {c : Char} {cs : List Char} (h : c ∈ [' ', '\t', '\r', '\n']) (hrest : Closed cs) :
      Closed (c :: cs)
  | lineComment {opener body cs : List Char} (h : LineOpener opener) (hbody : '\n' ∉ body)
      (hend : cs.head? = some '\n') (hrest : Closed cs) : Closed (opener ++ body ++ cs)
  | blockComment {body cs : List Char} (hbody : ¬ ['*', '/'] <:+: body ++ ['*'])
      (hrest : Closed cs) : Closed (['/', '*'] ++ body ++ ['*', '/'] ++ cs)
  | kept {c : Char} {cs : List Char} (hblank : c ∉ [' ', '\t', '\r', '\n']) (hline : c ≠ '#')
      (hslash : c = '/' → cs.head? ≠ some '/' ∧ cs.head? ≠ some '*') (hrest : Closed cs) :
      Closed (c :: cs)

/-- Neither a slash nor a star is the first character. -/
def Plain (cs : List Char) : Prop := cs.head? ≠ some '/' ∧ cs.head? ≠ some '*'

instance (cs : List Char) : Decidable (Plain cs) := inferInstanceAs (Decidable (_ ∧ _))

variable {before cs ds : List Char}

theorem Plain.append (hcs : Plain cs) (hds : Plain ds) : Plain (cs ++ ds) := by
  cases cs with
  | nil => exact hds
  | cons c cs => exact hcs

theorem Plain.of_append (h : Plain (cs ++ ds)) : Plain cs := by
  cases cs with
  | nil => exact ⟨nofun, nofun⟩
  | cons c cs => exact h

/-! ## Where the reader stands -/

theorem after_append (s : Trivia) (gs hs : List Glyph) :
    s.after (gs ++ hs) = (s.after gs).after hs := List.foldl_append

theorem after_line (h : cs.head? = some '\n') :
    line.after (located before cs) = code.after (located before cs) := by
  cases cs with
  | nil => cases h
  | cons c cs =>
    cases h
    rfl

/-- A slash that opens no comment is forgotten as soon as something follows it. -/
theorem after_slash {held : Glyph} (hne : cs ≠ []) (h : Plain cs) :
    (slash held).after (located before cs) = code.after (located before cs) := by
  cases cs with
  | nil => exact absurd rfl hne
  | cons c cs =>
    rw [located_cons]
    have hslash : c ≠ '/' := fun hc => h.1 (congrArg some hc)
    have hstar : c ≠ '*' := fun hc => h.2 (congrArg some hc)
    have hnext : (slash held).next ⟨c, Location.afterText before⟩ =
        code.next ⟨c, Location.afterText before⟩ := by
      simp [next, hslash, hstar]
    exact congrArg (fun s => s.after (located (before ++ [c]) cs)) hnext

/-- Outside comments the reader knows nothing of `cs`, or that a slash came last. -/
inductive Rests (before cs : List Char) : Prop
  | code (h : Trivia.code.after (located before cs) = .code)
  | slash (pre : List Char) (held : Glyph) (hcs : cs = pre ++ ['/']) (hpre : Closed pre)
      (h : Trivia.code.after (located before cs) = .slash held)

theorem Rests.step {front : List Char}
    (hafter : Trivia.code.after (located before (front ++ cs)) =
      Trivia.code.after (located (before ++ front) cs))
    (hclosed : ∀ pre, cs = pre ++ ['/'] → Closed pre → Closed (front ++ pre))
    (h : Rests (before ++ front) cs) : Rests before (front ++ cs) := by
  cases h with
  | code h => exact .code (hafter.trans h)
  | slash pre held hcs hpre h =>
    refine .slash (front ++ pre) held ?_ (hclosed pre hcs hpre) (hafter.trans h)
    rw [hcs, List.append_assoc]

theorem after_of_passes {front : List Char} {t : Trivia}
    (h : Passes code (located before front) t) :
    code.after (located before (front ++ cs)) = t.after (located (before ++ front) cs) := by
  rw [located_append, after_append, h.after]

theorem after_kept {c : Char} (hline : c ≠ '#') (hslash : c = '/' → cs ≠ [] ∧ Plain cs) :
    code.after (located before ([c] ++ cs)) = code.after (located (before ++ [c]) cs) := by
  rw [located_append, after_append]
  by_cases hc : c = '/'
  · subst hc
    exact after_slash (hslash rfl).1 (hslash rfl).2
  · have hnext : code.after (located before [c]) = code := by
      simp [located, Glyph.locateFrom, after, next, opening, hline, hc]
    rw [hnext]

theorem Closed.rests (h : Closed cs) : ∀ before, Rests before cs := by
  induction h with
  | nil => exact fun _ => .code rfl
  | @blank c cs h hrest ih =>
    intro before
    exact (ih (before ++ [c])).step (after_of_passes (passes_blank h)) fun _ _ hpre => .blank h hpre
  | lineComment h hbody hend hrest ih =>
    intro before
    refine (ih _).step ?_ fun pre hcs hpre => ?_
    · rw [after_of_passes (passes_lineComment h hbody), after_line hend]
    · refine .lineComment h hbody ?_ hpre
      subst hcs
      cases pre with
      | nil => cases hend
      | cons c pre => exact hend
  | blockComment hbody hrest ih =>
    intro before
    exact (ih _).step (after_of_passes (passes_blockComment hbody)) fun _ _ hpre =>
      .blockComment hbody hpre
  | @kept c cs hblank hline hslash hrest ih =>
    intro before
    by_cases hlast : c = '/' ∧ cs = []
    · obtain ⟨rfl, rfl⟩ := hlast
      exact .slash [] _ rfl .nil rfl
    · refine (ih (before ++ [c])).step ?_ fun pre hcs hpre => ?_
      · exact after_kept hline fun hc => ⟨fun hcs => hlast ⟨hc, hcs⟩, hslash hc⟩
      · refine .kept hblank hline (fun hc => ?_) hpre
        exact (hcs ▸ hslash hc : Plain (pre ++ ['/'])).of_append

/-- In a comment, of either sort. -/
inductive Inside : Trivia → Prop
  | line : Inside line
  | block {s : Trivia} (h : InBlock s) : Inside s

theorem Keeps.closed {gs : List Glyph} (h : Keeps before cs gs)
    (houtside : ¬ Inside (code.after (located before cs))) : Closed cs := by
  induction h with
  | nil => exact .nil
  | @blank before cs c gs h hrest ih =>
    refine .blank h (ih ?_)
    have hafter : code.after (located before ([c] ++ cs)) = _ := after_of_passes (passes_blank h)
    rw [← hafter]
    exact houtside
  | lineComment h hbody hend hrest ih =>
    rw [after_of_passes (passes_lineComment h hbody)] at houtside
    rcases hend with rfl | hend
    · exact absurd .line houtside
    · rw [after_line hend] at houtside
      exact .lineComment h hbody hend (ih houtside)
  | blockComment hbody hrest ih =>
    rw [after_of_passes (passes_blockComment hbody)] at houtside
    exact .blockComment hbody (ih houtside)
  | @openComment before body hbody =>
    obtain ⟨t, ht, hpasses⟩ := exists_passes_openComment before hbody
    rw [hpasses.after] at houtside
    exact absurd (.block ht) houtside
  | @kept before cs c gs hblank hline hslash hrest ih =>
    refine .kept hblank hline hslash ?_
    by_cases hcs : cs = []
    · rw [hcs]
      exact .nil
    · have hafter : code.after (located before ([c] ++ cs)) = _ :=
        after_kept hline fun hc => ⟨hcs, hslash hc⟩
      apply ih
      rw [← hafter]
      exact houtside

/-- A text is closed exactly if the reader is in no comment at its end. -/
theorem closed_iff : Closed cs ↔ ¬ Inside (code.after (located [] cs)) := by
  constructor
  · intro h hinside
    cases h.rests [] with
    | code h =>
      rw [h] at hinside
      rcases hinside with _ | hblock
      cases hblock
    | slash pre held hcs hpre h =>
      rw [h] at hinside
      rcases hinside with _ | hblock
      cases hblock
  · intro houtside
    obtain ⟨gs, hgs⟩ := exists_keeps [] cs
    exact hgs.closed houtside

/-! ## What stays around a gap -/

theorem Gap.passes (h : Gap cs) : ∀ before, Passes code (located before cs) code := by
  cases h with
  | blanks h =>
    induction cs with
    | nil => exact fun _ => .nil code
    | cons c cs ih =>
      intro before
      have hcons : c :: cs = [c] ++ cs := rfl
      rw [hcons, located_append]
      exact (passes_blank (h c List.mem_cons_self)).append
        (ih (fun d hd => h d (List.mem_cons_of_mem c hd)) _)
  | lineComment h hbody =>
    intro before
    rw [located_append]
    exact (passes_lineComment h hbody).append ⟨rfl, rfl⟩
  | blockComment hbody => exact fun _ => passes_blockComment hbody

theorem visible_held {held : Glyph} (h : Plain cs) :
    visibleFrom (slash held) (located before cs) =
      held :: visibleFrom code (located before cs) := by
  cases cs with
  | nil => rfl
  | cons c cs =>
    rw [located_cons]
    exact visible_slash _ _ _ (fun hc => h.1 (congrArg some hc)) fun hc => h.2 (congrArg some hc)

/-- Nothing of a gap stays, and what stays of the text behind it has other places alone. -/
theorem chars_visible_gap {c : List Char} (hc : Gap c) (before before' q : List Char) :
    chars (visibleFrom code (located before (c ++ q))) =
      chars (visibleFrom code (located before' q)) := by
  rw [located_append, (hc.passes before).visible]
  apply chars_visible_eq
  exact map_char_located.trans map_char_located.symm

/-- A gap in a text outside of comments changes no character that stays. -/
theorem chars_material_gap {p c q : String} (hp : Closed p.toList) (hc : Gap c.toList)
    (hslash : ∀ pre, p.toList = pre ++ ['/'] → Closed pre → Plain c.toList ∧ Plain q.toList) :
    chars (material (p ++ c ++ q)) = chars (material (p ++ q)) := by
  have hlocated : ∀ t : String,
      material (p ++ t) = settledFrom code (located [] p.toList) ++
        visibleFrom (code.after (located [] p.toList)) (located p.toList t.toList) := by
    intro t
    have hmaterial : material (p ++ t) = visibleFrom code (located [] (p ++ t).toList) := rfl
    rw [hmaterial, String.toList_append, located_append, visibleFrom_append, List.nil_append]
  rw [String.append_assoc, hlocated, hlocated, Token.chars_append, Token.chars_append,
    String.toList_append]
  congr 1
  have hgap := chars_visible_gap hc p.toList p.toList q.toList
  cases hp.rests [] with
  | code h =>
    rw [h]
    exact hgap
  | slash pre held hpre hclosed h =>
    obtain ⟨hplain, hplain'⟩ := hslash pre hpre hclosed
    rw [h, visible_held (hplain.append hplain'), visible_held hplain']
    exact congrArg (List.cons held.char) hgap

end Trivia
end MiniCheck
