import MiniCheck.Trivia

/-!
# What is neither blank nor commented out

The glyphs that stay of a text, said by cutting it into blanks, comments and other
characters. The reader of blanks and comments that holds slashes back keeps the same ones.
-/

namespace MiniCheck

namespace Location

/-- The place after some text: one line more than it has line feeds, one column more than it
has characters after the last of them. -/
def afterText (before : List Char) : Location :=
  ⟨1 + before.count '\n', 1 + (before.reverse.takeWhile fun c => c ≠ '\n').length⟩

theorem afterText_append_singleton (before : List Char) (c : Char) :
    afterText (before ++ [c]) = (afterText before).next c := by
  unfold afterText next
  rw [List.count_append, List.reverse_append, List.reverse_singleton, List.singleton_append]
  by_cases h : c = '\n'
  · subst h
    simp [Nat.add_assoc]
  · simp [h, Nat.add_assoc, Nat.add_comm 1]

theorem foldl_next_afterText (before cs : List Char) :
    cs.foldl next (afterText before) = afterText (before ++ cs) := by
  induction cs generalizing before with
  | nil => rw [List.append_nil, List.foldl_nil]
  | cons c cs ih =>
    rw [List.foldl_cons, ← afterText_append_singleton, ih, List.append_assoc, List.singleton_append]

/-- The order of places in a text. -/
def Before (p q : Location) : Prop := p.line < q.line ∨ p.line = q.line ∧ p.column < q.column

theorem Before.trans {p q r : Location} (h : p.Before q) (h' : q.Before r) : p.Before r := by
  unfold Before at *
  omega

theorem before_next (p : Location) (c : Char) : p.Before (p.next c) := by
  unfold Before next
  split
  · exact .inl (Nat.lt_succ_self _)
  · exact .inr ⟨rfl, Nat.lt_succ_self _⟩

theorem before_afterText_cons (before : List Char) (c : Char) (cs : List Char) :
    (afterText before).Before (afterText (before ++ c :: cs)) := by
  induction cs generalizing before c with
  | nil =>
    rw [afterText_append_singleton]
    exact before_next _ _
  | cons d cs ih =>
    have hfirst := before_next (afterText before) c
    have hlater := ih (before ++ [c]) d
    rw [← afterText_append_singleton] at hfirst
    rw [List.append_assoc, List.singleton_append] at hlater
    exact hfirst.trans hlater

end Location

namespace Trivia

open Glyph (locateFrom)
open Location (afterText)

/-- Where a comment to the end of the line begins. -/
def LineOpener (opener : List Char) : Prop := opener = ['#'] ∨ opener = ['/', '/']

/-- `Keeps before cs gs`: outside any comment and with `before` in front of it, the text `cs`
keeps the glyphs `gs`. -/
inductive Keeps : List Char → List Char → List Glyph → Prop
  | nil {before : List Char} : Keeps before [] []
  | blank {before cs : List Char} {c : Char} {gs : List Glyph} (h : c ∈ [' ', '\t', '\r', '\n'])
      (hrest : Keeps (before ++ [c]) cs gs) : Keeps before (c :: cs) gs
  | lineComment {before opener body cs : List Char} {gs : List Glyph} (h : LineOpener opener)
      (hbody : '\n' ∉ body) (hend : cs = [] ∨ cs.head? = some '\n')
      (hrest : Keeps (before ++ (opener ++ body)) cs gs) : Keeps before (opener ++ body ++ cs) gs
  | blockComment {before body cs : List Char} {gs : List Glyph}
      (hbody : ¬ ['*', '/'] <:+: body ++ ['*'])
      (hrest : Keeps (before ++ (['/', '*'] ++ body ++ ['*', '/'])) cs gs) :
      Keeps before (['/', '*'] ++ body ++ ['*', '/'] ++ cs) gs
  | openComment {before body : List Char} (hbody : ¬ ['*', '/'] <:+: body) :
      Keeps before (['/', '*'] ++ body) []
  | kept {before cs : List Char} {c : Char} {gs : List Glyph} (hblank : c ∉ [' ', '\t', '\r', '\n'])
      (hline : c ≠ '#') (hslash : c = '/' → cs.head? ≠ some '/' ∧ cs.head? ≠ some '*')
      (hrest : Keeps (before ++ [c]) cs gs) : Keeps before (c :: cs) (⟨c, afterText before⟩ :: gs)

/-! ## Inside comments -/

/-- Reading `gs` from `s` leads to `t` and keeps nothing. -/
structure Passes (s : Trivia) (gs : List Glyph) (t : Trivia) : Prop where
  settled : settledFrom s gs = []
  after : s.after gs = t

namespace Passes

variable {s t u : Trivia} {gs hs : List Glyph}

theorem visible (h : Passes s gs t) : visibleFrom s (gs ++ hs) = visibleFrom t hs := by
  rw [visibleFrom_append, h.settled, h.after, List.nil_append]

theorem nil (s : Trivia) : Passes s [] s := ⟨rfl, rfl⟩

theorem cons {g : Glyph} (hemit : s.emit g = []) (h : Passes (s.next g) gs t) :
    Passes s (g :: gs) t := by
  refine ⟨?_, h.after⟩
  rw [settledFrom, hemit, h.settled, List.nil_append]

theorem append (h : Passes s gs t) (h' : Passes t hs u) : Passes s (gs ++ hs) u := by
  induction gs generalizing s with
  | nil =>
    have hst : s = t := h.after
    rw [hst]
    exact h'
  | cons g gs ih =>
    have hsettled := h.settled
    rw [settledFrom, List.append_eq_nil_iff] at hsettled
    exact .cons hsettled.1 (ih ⟨hsettled.2, h.after⟩)

end Passes

theorem passes_line {gs : List Glyph} (h : '\n' ∉ gs.map Glyph.char) : Passes line gs line := by
  induction gs with
  | nil => exact .nil _
  | cons g gs ih =>
    rw [List.map_cons, List.mem_cons, not_or] at h
    have hnext : line.next g = line := if_neg fun heq => h.1 heq.symm
    apply Passes.cons rfl
    rw [hnext]
    exact ih h.2

/-- In a block comment, perhaps behind a star. -/
inductive InBlock : Trivia → Prop
  | block : InBlock block
  | star : InBlock star

theorem not_inside_of_cons {c : Char} {word cs : List Char} (h : ¬ word <:+: c :: cs) :
    ¬ word <:+: cs := fun hinside => h (hinside.trans (List.suffix_cons c cs).isInfix)

theorem exists_passes_block (gs : List Glyph) :
    (¬ ['*', '/'] <:+: gs.map Glyph.char → ∃ t, InBlock t ∧ Passes block gs t) ∧
      (¬ ['*', '/'] <:+: '*' :: gs.map Glyph.char → ∃ t, InBlock t ∧ Passes star gs t) := by
  induction gs with
  | nil => exact ⟨fun _ => ⟨block, .block, .nil _⟩, fun _ => ⟨star, .star, .nil _⟩⟩
  | cons g gs ih =>
    obtain ⟨hblock, hstar⟩ := ih
    -- What comes after `g` depends on the state before it only where `g` closes the comment.
    have hlater : ¬ ['*', '/'] <:+: g.char :: gs.map Glyph.char →
        ∃ t, InBlock t ∧ Passes (if g.char = '*' then star else block) gs t := by
      intro h
      by_cases hchar : g.char = '*'
      · rw [if_pos hchar]
        rw [hchar] at h
        exact hstar h
      · rw [if_neg hchar]
        exact hblock (not_inside_of_cons h)
    rw [List.map_cons]
    constructor
    · intro h
      obtain ⟨t, ht, hpasses⟩ := hlater h
      exact ⟨t, ht, .cons rfl hpasses⟩
    · intro h
      obtain ⟨t, ht, hpasses⟩ := hlater (not_inside_of_cons h)
      have hslash : g.char ≠ '/' := by
        intro hchar
        apply h
        rw [hchar]
        exact (List.prefix_append ['*', '/'] _).isInfix
      refine ⟨t, ht, .cons rfl ?_⟩
      have hnext : star.next g = if g.char = '*' then star else block := if_neg hslash
      rw [hnext]
      exact hpasses

/-! ## The reader keeps what stays -/

/-- The glyphs of a text that has `before` in front of it. -/
def located (before cs : List Char) : List Glyph := locateFrom (afterText before) cs

section Located

variable {before cs ds : List Char} {c : Char} {t : Trivia} {gs : List Glyph}

theorem located_cons : located before (c :: cs) =
    ⟨c, afterText before⟩ :: located (before ++ [c]) cs := by
  unfold located
  rw [Location.afterText_append_singleton]
  rfl

theorem located_append : located before (cs ++ ds) =
    located before cs ++ located (before ++ cs) ds := by
  unfold located
  rw [Glyph.locateFrom_append, Location.foldl_next_afterText]

theorem map_char_located : (located before cs).map Glyph.char = cs :=
  Glyph.map_char_locateFrom _ _

theorem passes_blank (h : c ∈ [' ', '\t', '\r', '\n']) :
    Passes code (located before [c]) code := by
  simp only [List.mem_cons, List.not_mem_nil, or_false] at h
  rcases h with rfl | rfl | rfl | rfl
  · exact ⟨rfl, rfl⟩
  · exact ⟨rfl, rfl⟩
  · exact ⟨rfl, rfl⟩
  · exact ⟨rfl, rfl⟩

theorem passes_lineOpener (h : LineOpener cs) : Passes code (located before cs) line := by
  rcases h with rfl | rfl
  · exact ⟨rfl, rfl⟩
  · exact ⟨rfl, rfl⟩

theorem passes_lineComment {opener body : List Char} (h : LineOpener opener)
    (hbody : '\n' ∉ body) : Passes code (located before (opener ++ body)) line := by
  rw [located_append]
  apply (passes_lineOpener h).append
  apply passes_line
  rw [map_char_located]
  exact hbody

theorem exists_passes_openComment (before : List Char) {body : List Char}
    (h : ¬ ['*', '/'] <:+: body) :
    ∃ t, InBlock t ∧ Passes code (located before (['/', '*'] ++ body)) t := by
  have hopener : Passes code (located before ['/', '*']) block := ⟨rfl, rfl⟩
  have hbody := (exists_passes_block (located (before ++ ['/', '*']) body)).1
  rw [map_char_located] at hbody
  obtain ⟨t, ht, hpasses⟩ := hbody h
  rw [located_append]
  exact ⟨t, ht, hopener.append hpasses⟩

theorem passes_blockComment {body : List Char} (h : ¬ ['*', '/'] <:+: body ++ ['*']) :
    Passes code (located before (['/', '*'] ++ body ++ ['*', '/'])) code := by
  have hbody : ¬ ['*', '/'] <:+: body := fun hinside =>
    h (hinside.trans (List.prefix_append body ['*']).isInfix)
  obtain ⟨t, ht, hpasses⟩ := exists_passes_openComment before hbody
  rw [located_append]
  apply hpasses.append
  cases ht with
  | block => exact ⟨rfl, rfl⟩
  | star => exact ⟨rfl, rfl⟩

/-- A comment to the end of the line leaves the line feed to what follows it. -/
theorem visible_line (h : cs = [] ∨ cs.head? = some '\n') :
    visibleFrom line (located before cs) = visibleFrom code (located before cs) := by
  rcases h with rfl | h
  · rfl
  · cases cs with
    | nil => rfl
    | cons c cs =>
      cases h
      rfl

theorem keep_of_not_mem {g : Glyph} (hblank : g.char ∉ [' ', '\t', '\r', '\n'])
    (hline : g.char ≠ '#') (hslash : g.char ≠ '/') : keep g = [g] := by
  simp only [List.mem_cons, List.not_mem_nil, or_false, not_or] at hblank
  simp [keep, isBlank, hblank, hline, hslash]

/-- A slash that opens no comment is kept as soon as the next character is known. -/
theorem visible_slash (g h : Glyph) (hs : List Glyph) (hne : h.char ≠ '/') (hne' : h.char ≠ '*') :
    visibleFrom (slash g) (h :: hs) = g :: visibleFrom code (h :: hs) := by
  have hemit : (slash g).emit h = g :: keep h := by
    simp [emit, hne, hne']
  have hnext : (slash g).next h = code.next h := by
    simp [next, hne, hne']
  rw [visibleFrom, hemit, hnext, List.cons_append]
  rfl

theorem visible_kept (hblank : c ∉ [' ', '\t', '\r', '\n']) (hline : c ≠ '#')
    (hslash : c = '/' → cs.head? ≠ some '/' ∧ cs.head? ≠ some '*') :
    visibleFrom code (located before (c :: cs)) =
      ⟨c, afterText before⟩ :: visibleFrom code (located (before ++ [c]) cs) := by
  rw [located_cons]
  by_cases hc : c = '/'
  · subst hc
    obtain ⟨hne, hne'⟩ := hslash rfl
    have hheld : visibleFrom code (⟨'/', afterText before⟩ :: located (before ++ ['/']) cs) =
        visibleFrom (slash ⟨'/', afterText before⟩) (located (before ++ ['/']) cs) := rfl
    rw [hheld]
    cases cs with
    | nil => rfl
    | cons d ds =>
      rw [located_cons]
      exact visible_slash _ _ _ (fun h => hne (congrArg some h)) fun h => hne' (congrArg some h)
  · have hkeep : code.emit ⟨c, afterText before⟩ = [⟨c, afterText before⟩] :=
      keep_of_not_mem hblank hline hc
    have hnext : code.next ⟨c, afterText before⟩ = code := by
      simp [next, opening, hline, hc]
    rw [visibleFrom, hkeep, hnext]
    rfl

end Located

theorem visible_of_keeps {before cs : List Char} {gs : List Glyph} (h : Keeps before cs gs) :
    visibleFrom code (located before cs) = gs := by
  induction h with
  | nil => rfl
  | @blank before cs c gs h hrest ih =>
    have hcons : c :: cs = [c] ++ cs := rfl
    rw [hcons, located_append, (passes_blank h).visible, ih]
  | lineComment h hbody hend hrest ih =>
    rw [located_append, (passes_lineComment h hbody).visible, visible_line hend, ih]
  | blockComment hbody hrest ih =>
    rw [located_append, (passes_blockComment hbody).visible, ih]
  | @openComment before body hbody =>
    obtain ⟨t, ht, hpasses⟩ := exists_passes_openComment before hbody
    rw [visibleFrom_eq, hpasses.settled, hpasses.after]
    cases ht with
    | block => rfl
    | star => rfl
  | kept hblank hline hslash hrest ih =>
    rw [visible_kept hblank hline hslash, ih]

/-! ## Every text keeps something, and only that -/

theorem exists_line (cs : List Char) :
    ∃ body rest, cs = body ++ rest ∧ '\n' ∉ body ∧ (rest = [] ∨ rest.head? = some '\n') := by
  induction cs with
  | nil => exact ⟨[], [], rfl, List.not_mem_nil, .inl rfl⟩
  | cons c cs ih =>
    by_cases hc : c = '\n'
    · exact ⟨[], c :: cs, rfl, List.not_mem_nil, .inr (congrArg some hc)⟩
    · obtain ⟨body, rest, rfl, hbody, hrest⟩ := ih
      refine ⟨c :: body, rest, rfl, ?_, hrest⟩
      rw [List.mem_cons, not_or]
      exact ⟨fun h => hc h.symm, hbody⟩

/-- A block comment is closed at the first place where it can be, or never. -/
theorem exists_close (cs : List Char) :
    ¬ ['*', '/'] <:+: cs ∨
      ∃ body rest, cs = body ++ ['*', '/'] ++ rest ∧ ¬ ['*', '/'] <:+: body ++ ['*'] := by
  induction cs with
  | nil => exact .inl (by decide)
  | cons c cs ih =>
    by_cases hclose : ['*', '/'] <+: c :: cs
    · obtain ⟨rest, hrest⟩ := hclose
      exact .inr ⟨[], rest, hrest.symm, by decide⟩
    · rcases ih with hno | ⟨body, rest, rfl, hbody⟩
      · refine .inl fun h => ?_
        rcases List.infix_cons_iff.mp h with hbegins | hinside
        · exact hclose hbegins
        · exact hno hinside
      · refine .inr ⟨c :: body, rest, rfl, fun h => ?_⟩
        rcases List.infix_cons_iff.mp h with hbegins | hinside
        · apply hclose
          have hlonger : c :: (body ++ ['*']) <+: c :: (body ++ ['*', '/'] ++ rest) := by
            rw [List.cons_prefix_cons, List.append_assoc, List.prefix_append_right_inj]
            exact ⟨rfl, List.prefix_append ['*'] _⟩
          exact hbegins.trans hlonger
        · exact hbody hinside

theorem exists_keeps (before cs : List Char) : ∃ gs, Keeps before cs gs := by
  induction hn : cs.length using Nat.strongRecOn generalizing before cs with
  | ind n ih =>
    have hshorter : ∀ (front rest before' : List Char), front ≠ [] → cs = front ++ rest →
        ∃ gs, Keeps before' rest gs := by
      intro front rest before' hfront heq
      refine ih rest.length ?_ before' rest rfl
      have hpos := List.length_pos_iff.mpr hfront
      rw [← hn, heq, List.length_append]
      omega
    have hcomment : ∀ opener rest, LineOpener opener → cs = opener ++ rest →
        ∃ gs, Keeps before cs gs := by
      intro opener rest hopener heq
      obtain ⟨body, rest, rfl, hbody, hrest⟩ := exists_line rest
      rw [← List.append_assoc] at heq
      have hne : opener ++ body ≠ [] := by
        rcases hopener with rfl | rfl <;> exact List.cons_ne_nil _ _
      obtain ⟨gs, hgs⟩ := hshorter (opener ++ body) rest (before ++ (opener ++ body)) hne heq
      rw [heq]
      exact ⟨gs, .lineComment hopener hbody hrest hgs⟩
    have hblock : ∀ rest, cs = ['/', '*'] ++ rest → ∃ gs, Keeps before cs gs := by
      intro rest heq
      rcases exists_close rest with hopen | ⟨body, rest, rfl, hbody⟩
      · rw [heq]
        exact ⟨[], .openComment hopen⟩
      · rw [← List.append_assoc, ← List.append_assoc] at heq
        obtain ⟨gs, hgs⟩ := hshorter _ rest (before ++ (['/', '*'] ++ body ++ ['*', '/']))
          (List.cons_ne_nil _ _) heq
        rw [heq]
        exact ⟨gs, .blockComment hbody hgs⟩
    cases cs with
    | nil => exact ⟨[], .nil⟩
    | cons c cs =>
      obtain ⟨gs, hgs⟩ := hshorter [c] cs (before ++ [c]) (List.cons_ne_nil _ _) rfl
      by_cases hblank : c ∈ [' ', '\t', '\r', '\n']
      · exact ⟨gs, .blank hblank hgs⟩
      · by_cases hline : c = '#'
        · subst hline
          exact hcomment ['#'] cs (.inl rfl) rfl
        · by_cases hslash : c = '/' ∧ cs.head? = some '/'
          · obtain ⟨rfl, hhead⟩ := hslash
            obtain ⟨rest, rfl⟩ := List.head?_eq_some_iff.mp hhead
            exact hcomment ['/', '/'] rest (.inr rfl) rfl
          · by_cases hstar : c = '/' ∧ cs.head? = some '*'
            · obtain ⟨rfl, hhead⟩ := hstar
              obtain ⟨rest, rfl⟩ := List.head?_eq_some_iff.mp hhead
              exact hblock rest rfl
            · refine ⟨_, .kept hblank hline (fun hc => ?_) hgs⟩
              exact ⟨fun hhead => hslash ⟨hc, hhead⟩, fun hhead => hstar ⟨hc, hhead⟩⟩

theorem keeps_unique {before cs : List Char} {gs hs : List Glyph} (h : Keeps before cs gs)
    (h' : Keeps before cs hs) : gs = hs :=
  (visible_of_keeps h).symm.trans (visible_of_keeps h')

/-! ## Places -/

/-- In the text `cs`, which has `before` in front of it, a glyph stands where it says. -/
def Stands (before cs : List Char) (g : Glyph) : Prop :=
  ∃ pre post, cs = pre ++ g.char :: post ∧ g.location = afterText (before ++ pre)

theorem Stands.append {before cs : List Char} {g : Glyph} (front : List Char)
    (h : Stands (before ++ front) cs g) : Stands before (front ++ cs) g := by
  obtain ⟨pre, post, rfl, hlocation⟩ := h
  refine ⟨front ++ pre, post, ?_, ?_⟩
  · rw [List.append_assoc]
  · rw [hlocation, List.append_assoc]

theorem Keeps.stands {before cs : List Char} {gs : List Glyph} (h : Keeps before cs gs) :
    ∀ g ∈ gs, Stands before cs g := by
  induction h with
  | nil => exact fun _ hg => absurd hg List.not_mem_nil
  | @blank before cs c gs h hrest ih => exact fun g hg => (ih g hg).append [c]
  | lineComment h hbody hend hrest ih => exact fun g hg => (ih g hg).append _
  | blockComment hbody hrest ih => exact fun g hg => (ih g hg).append _
  | openComment hbody => exact fun _ hg => absurd hg List.not_mem_nil
  | @kept before cs c gs hblank hline hslash hrest ih =>
    intro g hg
    rcases List.mem_cons.mp hg with rfl | hg
    · exact ⟨[], cs, rfl, by rw [List.append_nil]⟩
    · exact (ih g hg).append [c]

/-- What is kept keeps its order. -/
theorem Keeps.pairwise {before cs : List Char} {gs : List Glyph} (h : Keeps before cs gs) :
    gs.Pairwise fun g h => g.location.Before h.location := by
  induction h with
  | nil => exact .nil
  | blank h hrest ih => exact ih
  | lineComment h hbody hend hrest ih => exact ih
  | blockComment hbody hrest ih => exact ih
  | openComment hbody => exact .nil
  | @kept before cs c gs hblank hline hslash hrest ih =>
    apply List.Pairwise.cons _ ih
    intro g hg
    obtain ⟨pre, post, _, hlocation⟩ := hrest.stands g hg
    rw [hlocation, List.append_assoc, List.singleton_append]
    exact Location.before_afterText_cons _ _ _

end Trivia
end MiniCheck
