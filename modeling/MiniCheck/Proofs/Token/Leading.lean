import MiniCheck.Proofs.Token.Rules

/-!
# The first token is found by the rules

The kinds with a spelling are tried in an order, but among the marks of one length and among
the keywords at most one fits, so the rules need no order.
-/

namespace MiniCheck
namespace Token

theorem spells_iff {cs : List Char} {gs : List Glyph} : spells cs gs = true ↔ cs <+: chars gs := by
  induction cs generalizing gs with
  | nil => simp [spells]
  | cons c cs ih =>
    cases gs with
    | nil => simp [spells, chars]
    | cons g gs =>
      have hchars : chars (g :: gs) = g.char :: chars gs := rfl
      rw [hchars, List.cons_prefix_cons, ← ih]
      simp [spells]

/-! ## Spellings -/

/-- No kind of a list is spelt like the beginning of another one. -/
def Apart (ks : List Kind) : Prop :=
  ∀ k ∈ ks, ∀ l ∈ ks, ∀ v w, k.spelling?.map String.toList = some v →
    l.spelling?.map String.toList = some w → v <+: w → k = l

theorem apart_of_forall {ks : List Kind}
    (h : ∀ k ∈ ks, ∀ l ∈ ks,
      (k.spelling?.getD "").toList.isPrefixOf (l.spelling?.getD "").toList → k = l) : Apart ks := by
  intro k hk l hl v w hv hw hbegins
  obtain ⟨s, hs, rfl⟩ := Option.map_eq_some_iff.mp hv
  obtain ⟨t, ht, rfl⟩ := Option.map_eq_some_iff.mp hw
  apply h k hk l hl
  simpa [hs, ht] using hbegins

theorem apart_pairs : Apart Kind.pairs := apart_of_forall (by decide +kernel)

theorem apart_singles : Apart Kind.singles := apart_of_forall (by decide +kernel)

theorem apart_keywords : Apart Kind.keywords := apart_of_forall (by decide +kernel)

/-- Two kinds that both begin a word are the same. -/
theorem Apart.eq {ks : List Kind} (h : Apart ks) {k l : Kind} (hk : k ∈ ks) (hl : l ∈ ks)
    {v w word : List Char} (hv : k.spelling?.map String.toList = some v)
    (hw : l.spelling?.map String.toList = some w) (hv' : v <+: word) (hw' : w <+: word) :
    k = l := by
  rcases List.prefix_or_prefix_of_prefix hv' hw' with hbegins | hbegins
  · exact h k hk l hl v w hv hw hbegins
  · exact (h l hl k hk w v hw hv hbegins).symm

/-- A kind that the glyphs begin with, and its length. -/
def spellingAt (gs : List Glyph) (k : Kind) : Option (Kind × Nat) :=
  k.spelling?.bind fun s => if spells s.toList gs then some (k, s.length) else none

theorem speltKind_eq (gs : List Glyph) :
    speltKind gs = (Kind.pairs.findSome? (spellingAt gs)).or
      ((Kind.singles.findSome? (spellingAt gs)).or (Kind.keywords.findSome? (spellingAt gs))) := by
  have hspelling : speltKind gs = Kind.spelt.findSome? (spellingAt gs) := by
    unfold speltKind
    congr 1
    funext k
    unfold spellingAt
    cases k.spelling? <;> rfl
  rw [hspelling, Kind.spelt, List.findSome?_append, List.findSome?_append, Option.or_assoc]

section Found

variable {gs : List Glyph} {k : Kind} {ks : List Kind} {front : List Char}

theorem spellingAt_eq_some (h : k.spelling?.map String.toList = some front)
    (hfront : front <+: chars gs) : spellingAt gs k = some (k, front.length) := by
  obtain ⟨s, hs, rfl⟩ := Option.map_eq_some_iff.mp h
  simp [spellingAt, hs, spells_iff.mpr hfront, String.length_toList]

theorem of_spellingAt {found : Kind × Nat} (h : spellingAt gs k = some found) :
    found.1 = k ∧ ∃ front, k.spelling?.map String.toList = some front ∧ front <+: chars gs ∧
      front.length = found.2 := by
  unfold spellingAt at h
  obtain ⟨s, hs, h⟩ := Option.bind_eq_some_iff.mp h
  by_cases hspells : spells s.toList gs = true
  · rw [if_pos hspells, Option.some.injEq] at h
    subst h
    refine ⟨rfl, s.toList, ?_, spells_iff.mp hspells, String.length_toList⟩
    rw [hs]
    rfl
  · rw [if_neg hspells] at h
    cases h

theorem findSome_spelling (hapart : Apart ks) (hk : k ∈ ks)
    (h : k.spelling?.map String.toList = some front) (hfront : front <+: chars gs) :
    ks.findSome? (spellingAt gs) = some (k, front.length) := by
  cases hfound : ks.findSome? (spellingAt gs) with
  | none =>
    have hno := List.findSome?_eq_none_iff.mp hfound k hk
    rw [spellingAt_eq_some h hfront] at hno
    cases hno
  | some found =>
    obtain ⟨l, hl, hspelling⟩ := List.exists_of_findSome?_eq_some hfound
    obtain ⟨_, word, hword, hbegins, _⟩ := of_spellingAt hspelling
    have hkl := hapart.eq hk hl h hword hfront hbegins
    subst hkl
    rw [← hspelling, spellingAt_eq_some h hfront]

theorem findSome_spelling_eq_none (h : NoBeginning (IsSpelling ks) (chars gs)) :
    ks.findSome? (spellingAt gs) = none := by
  rw [List.findSome?_eq_none_iff]
  intro k hk
  cases hspelling : spellingAt gs k with
  | none => rfl
  | some found =>
    obtain ⟨_, front, hfront, hbegins, _⟩ := of_spellingAt hspelling
    exact absurd ⟨k, hk, hfront⟩ (h front hbegins)

theorem noBeginning_of_findSome (h : ks.findSome? (spellingAt gs) = none) :
    NoBeginning (IsSpelling ks) (chars gs) := by
  rintro front hbegins ⟨k, hk, hfront⟩
  have hno := List.findSome?_eq_none_iff.mp h k hk
  rw [spellingAt_eq_some hfront hbegins] at hno
  cases hno

theorem of_findSome_spelling {n : Nat} (h : ks.findSome? (spellingAt gs) = some (k, n)) :
    k ∈ ks ∧ ∃ front, k.spelling?.map String.toList = some front ∧ front <+: chars gs ∧
      front.length = n := by
  obtain ⟨l, hl, hspelling⟩ := List.exists_of_findSome?_eq_some h
  obtain ⟨rfl, hfront⟩ := of_spellingAt hspelling
  exact ⟨hl, hfront⟩

end Found

/-- Every keyword could be a name. -/
theorem isName_keyword {k : Kind} (hk : k ∈ Kind.keywords) {front : List Char}
    (h : k.spelling?.map String.toList = some front) : IsName front := by
  have hnames : ∀ k ∈ Kind.keywords, nameAutomaton.longest (k.spelling?.getD "").toList =
      some (k.spelling?.getD "").toList.length := by
    decide +kernel
  obtain ⟨s, hs, rfl⟩ := Option.map_eq_some_iff.mp h
  have hname := (nameAutomaton_recognizes.longest (hnames k hk)).holds
  rw [List.take_length, hs] at hname
  exact hname

theorem runsOn_iff {c : Char} : RunsOn c ↔ clashes c = true := by
  simp [RunsOn, clashes]

/-! ## The first token -/

section Leading

variable {g : Glyph} {gs : List Glyph}

theorem longest_number_glyphs (gs : List Glyph) :
    (numberAutomaton.comap Glyph.char).longest gs = numberAutomaton.longest (chars gs) :=
  Automaton.longest_comap _ _ _

theorem longest_name_glyphs (gs : List Glyph) :
    (nameAutomaton.comap Glyph.char).longest gs = nameAutomaton.longest (chars gs) :=
  Automaton.longest_comap _ _ _

theorem chars_append (gs hs : List Glyph) : chars (gs ++ hs) = chars gs ++ chars hs :=
  List.map_append

theorem chars_take (n : Nat) (gs : List Glyph) : chars (gs.take n) = (chars gs).take n :=
  List.map_take

theorem chars_drop (n : Nat) (gs : List Glyph) : chars (gs.drop n) = (chars gs).drop n :=
  List.map_drop

theorem leading_of_number {n : Nat} (h : numberAutomaton.longest (chars (g :: gs)) = some n)
    (hrest : ∀ c ∈ (chars ((g :: gs).drop n)).head?, ¬ RunsOn c) :
    leading g gs = .ok (.number, n) := by
  unfold leading
  rw [longest_number_glyphs, h]
  cases hdrop : (g :: gs).drop n with
  | nil => simp only [hdrop, List.head?_nil]
  | cons last rest =>
    rw [hdrop] at hrest
    have hclashes : ¬ clashes last.char = true := fun hlast =>
      hrest last.char rfl (runsOn_iff.mpr hlast)
    simp only [hdrop, List.head?_cons, hclashes]
    rfl

theorem leading_of_badNumber {n : Nat} {last : Glyph} {rest : List Glyph}
    (h : numberAutomaton.longest (chars (g :: gs)) = some n)
    (hdrop : (g :: gs).drop n = last :: rest) (hlast : RunsOn last.char) :
    leading g gs =
      .error (.badNumber (Glyph.spelling ((g :: gs).take (n + 1))) g.location) := by
  unfold leading
  rw [longest_number_glyphs, h]
  simp only [hdrop, List.head?_cons, runsOn_iff.mp hlast, ↓reduceIte]

theorem leading_of_spelt {found : Kind × Nat}
    (h : numberAutomaton.longest (chars (g :: gs)) = none)
    (hspelt : speltKind (g :: gs) = some found) : leading g gs = .ok found := by
  unfold leading
  rw [longest_number_glyphs, h, hspelt]

theorem leading_of_name {n : Nat} (h : numberAutomaton.longest (chars (g :: gs)) = none)
    (hspelt : speltKind (g :: gs) = none)
    (hname : nameAutomaton.longest (chars (g :: gs)) = some n) :
    leading g gs = .ok (.name, n) := by
  unfold leading
  rw [longest_number_glyphs, h, hspelt, longest_name_glyphs, hname]

theorem leading_of_none (h : numberAutomaton.longest (chars (g :: gs)) = none)
    (hspelt : speltKind (g :: gs) = none)
    (hname : nameAutomaton.longest (chars (g :: gs)) = none) :
    leading g gs = .error (.unexpected g.char g.location) := by
  unfold leading
  rw [longest_number_glyphs, h, hspelt, longest_name_glyphs, hname]

theorem take_of_begins {front : List Char} (h : front <+: chars gs) :
    chars (gs.take front.length) = front := by
  rw [chars_take]
  exact (List.prefix_iff_eq_take.mp h).symm

theorem take_append_chars_drop (n : Nat) (gs : List Glyph) :
    chars (gs.take n) ++ chars (gs.drop n) = chars gs := by
  rw [← chars_append, List.take_append_drop]

/-- The longest name goes on after a keyword that begins it. -/
theorem exists_name_of_keyword {k : Kind} {front : List Char} (hk : k ∈ Kind.keywords)
    (h : k.spelling?.map String.toList = some front) (rest : List Char) :
    ∃ more rest', rest = more ++ rest' ∧ Longest IsName (front ++ more) rest' := by
  have hfront := isName_keyword hk h
  cases hname : nameAutomaton.longest (front ++ rest) with
  | none =>
    have hno := nameAutomaton_recognizes.noBeginning hname
    exact absurd hfront (hno front (List.prefix_append _ _))
  | some n =>
    have hlongest := nameAutomaton_recognizes.longest hname
    -- The keyword is a name itself, so the longest name is not shorter.
    have hle := hlongest.greatest (by
      rw [List.take_append_drop]
      exact List.prefix_append front rest) hfront
    have hbegins : front <+: (front ++ rest).take n :=
      List.prefix_of_prefix_length_le (List.prefix_append _ _) (List.take_prefix _ _) hle
    obtain ⟨more, hmore⟩ := hbegins
    have heq := List.take_append_drop n (front ++ rest)
    rw [← hmore, List.append_assoc] at heq
    refine ⟨more, _, (List.append_cancel_left heq).symm, ?_⟩
    rw [hmore]
    exact hlongest

theorem leads_of_speltKind {k : Kind} {n : Nat} (hno : NoNumber (chars gs))
    (h : speltKind gs = some (k, n)) : Leads k (chars (gs.take n)) (chars (gs.drop n)) := by
  have hsplit := take_append_chars_drop n gs
  rw [← hsplit] at hno
  rw [speltKind_eq] at h
  cases hpair : Kind.pairs.findSome? (spellingAt gs) with
  | some found =>
    rw [hpair, Option.some_or, Option.some.injEq] at h
    subst h
    obtain ⟨hk, front, hfront, hbegins, rfl⟩ := of_findSome_spelling hpair
    rw [take_of_begins hbegins] at hno ⊢
    exact .pair hno hk hfront
  | none =>
    rw [hpair, Option.none_or] at h
    have hnoPair := noBeginning_of_findSome hpair
    rw [← hsplit] at hnoPair
    cases hsingle : Kind.singles.findSome? (spellingAt gs) with
    | some found =>
      rw [hsingle, Option.some_or, Option.some.injEq] at h
      subst h
      obtain ⟨hk, front, hfront, hbegins, rfl⟩ := of_findSome_spelling hsingle
      rw [take_of_begins hbegins] at hno hnoPair ⊢
      exact .single ⟨hno, hnoPair⟩ hk hfront
    | none =>
      rw [hsingle, Option.none_or] at h
      have hnoSingle := noBeginning_of_findSome hsingle
      rw [← hsplit] at hnoSingle
      obtain ⟨hk, front, hfront, hbegins, rfl⟩ := of_findSome_spelling h
      rw [take_of_begins hbegins] at hno hnoPair hnoSingle ⊢
      obtain ⟨more, rest, hrest, hname⟩ :=
        exists_name_of_keyword hk hfront (chars (gs.drop front.length))
      rw [hrest] at hno hnoPair hnoSingle ⊢
      exact .keyword ⟨⟨hno, hnoPair⟩, hnoSingle⟩ hname hk hfront

theorem noMark_of_speltKind (hno : NoNumber (chars gs)) (h : speltKind gs = none) :
    NoMark (chars gs) ∧ NoBeginning (IsSpelling Kind.keywords) (chars gs) := by
  rw [speltKind_eq, Option.or_eq_none_iff, Option.or_eq_none_iff] at h
  obtain ⟨hpair, hsingle, hkeyword⟩ := h
  exact ⟨⟨⟨hno, noBeginning_of_findSome hpair⟩, noBeginning_of_findSome hsingle⟩,
    noBeginning_of_findSome hkeyword⟩

theorem speltKind_of_pair {k : Kind} {front : List Char} (hk : k ∈ Kind.pairs)
    (h : k.spelling?.map String.toList = some front) (hfront : front <+: chars gs) :
    speltKind gs = some (k, front.length) := by
  rw [speltKind_eq, findSome_spelling apart_pairs hk h hfront, Option.some_or]

theorem speltKind_of_single {k : Kind} {front : List Char} (hno : NoPair (chars gs))
    (hk : k ∈ Kind.singles) (h : k.spelling?.map String.toList = some front)
    (hfront : front <+: chars gs) : speltKind gs = some (k, front.length) := by
  rw [speltKind_eq, findSome_spelling_eq_none hno.pair, Option.none_or,
    findSome_spelling apart_singles hk h hfront, Option.some_or]

theorem speltKind_of_keyword {k : Kind} {front : List Char} (hno : NoMark (chars gs))
    (hk : k ∈ Kind.keywords) (h : k.spelling?.map String.toList = some front)
    (hfront : front <+: chars gs) : speltKind gs = some (k, front.length) := by
  rw [speltKind_eq, findSome_spelling_eq_none hno.pair, Option.none_or,
    findSome_spelling_eq_none hno.single, Option.none_or,
    findSome_spelling apart_keywords hk h hfront]

theorem speltKind_of_noMark (hno : NoMark (chars gs))
    (h : NoBeginning (IsSpelling Kind.keywords) (chars gs)) : speltKind gs = none := by
  rw [speltKind_eq, findSome_spelling_eq_none hno.pair, Option.none_or,
    findSome_spelling_eq_none hno.single, Option.none_or, findSome_spelling_eq_none h]

/-- A keyword is found in the longest name or not at all. -/
theorem noKeyword_iff {front rest : List Char} (h : Longest IsName front rest) :
    NoBeginning (IsSpelling Kind.keywords) (front ++ rest) ↔
      NoBeginning (IsSpelling Kind.keywords) front := by
  constructor
  · intro hno word hword
    exact hno word (hword.trans (List.prefix_append _ _))
  · rintro hno word hword ⟨k, hk, hspelling⟩
    have hle := h.greatest hword (isName_keyword hk hspelling)
    have hbegins := List.prefix_of_prefix_length_le hword (List.prefix_append front rest) hle
    exact hno word hbegins ⟨k, hk, hspelling⟩

theorem noKeyword_of_noName {word : List Char} (h : NoBeginning IsName word) :
    NoBeginning (IsSpelling Kind.keywords) word := by
  rintro front hfront ⟨k, hk, hspelling⟩
  exact h front hfront (isName_keyword hk hspelling)

theorem take_length_succ {α : Type} (xs : List α) (y : α) (ys : List α) :
    (xs ++ y :: ys).take (xs.length + 1) = xs ++ [y] := by
  rw [List.take_length_add_append]
  rfl
theorem stuck_of_longest {n : Nat} {last : Glyph} {rest : List Glyph} (hpos : 0 < n)
    (hdrop : (g :: gs).drop n = last :: rest)
    (h : Longest IsNumber (chars ((g :: gs).take n)) (chars (last :: rest)))
    (hlast : RunsOn last.char) :
    Stuck (g :: gs) (.badNumber (Glyph.spelling ((g :: gs).take (n + 1))) g.location) := by
  obtain ⟨m, rfl⟩ : ∃ m, n = m + 1 := ⟨n - 1, by omega⟩
  have hsplit := List.take_append_drop (m + 1) (g :: gs)
  have hlength : ((g :: gs).take (m + 1)).length = m + 1 := by
    have hrest := congrArg List.length hdrop
    rw [List.length_drop, List.length_cons, List.length_cons] at hrest
    rw [List.length_take, List.length_cons]
    omega
  rw [hdrop] at hsplit
  have htake := take_length_succ ((g :: gs).take (m + 1)) last rest
  rw [hsplit, hlength] at htake
  rw [htake]
  have hstuck : Stuck ((g :: gs).take (m + 1) ++ last :: rest)
      (.badNumber (Glyph.spelling ((g :: gs).take (m + 1) ++ [last])) g.location) :=
    .badNumber h hlast
  rw [hsplit] at hstuck
  exact hstuck

/-- The token that is found stands at the front, or there is a reason why none does. -/
theorem leading_spec (g : Glyph) (gs : List Glyph) :
    (∃ k n, leading g gs = .ok (k, n) ∧
      Leads k (chars ((g :: gs).take n)) (chars ((g :: gs).drop n))) ∨
      ∃ e, leading g gs = .error e ∧ Stuck (g :: gs) e := by
  cases hnumber : numberAutomaton.longest (chars (g :: gs)) with
  | some n =>
    have hlongest := numberAutomaton_recognizes.longest hnumber
    rw [← chars_take, ← chars_drop] at hlongest
    by_cases hrest : ∀ c ∈ (chars ((g :: gs).drop n)).head?, ¬ RunsOn c
    · exact .inl ⟨_, _, leading_of_number hnumber hrest, .number hlongest hrest⟩
    · cases hdrop : (g :: gs).drop n with
      | nil =>
        rw [hdrop] at hrest
        exact absurd (fun _ hc => absurd hc (by simp [chars])) hrest
      | cons last rest =>
        by_cases hlast : RunsOn last.char
        · refine .inr ⟨_, leading_of_badNumber hnumber hdrop hlast, ?_⟩
          rw [hdrop] at hlongest
          exact stuck_of_longest (Automaton.longest_pos _ hnumber).1 hdrop hlongest hlast
        · rw [hdrop] at hrest
          refine absurd (fun c hc => ?_) hrest
          cases hc
          exact hlast
  | none =>
    have hno : NoNumber (chars (g :: gs)) := ⟨numberAutomaton_recognizes.noBeginning hnumber⟩
    cases hspelt : speltKind (g :: gs) with
    | some found =>
      exact .inl ⟨_, _, leading_of_spelt hnumber hspelt, leads_of_speltKind hno hspelt⟩
    | none =>
      obtain ⟨hnoMark, hkeyword⟩ := noMark_of_speltKind hno hspelt
      cases hname : nameAutomaton.longest (chars (g :: gs)) with
      | some n =>
        have hlongest := nameAutomaton_recognizes.longest hname
        rw [← chars_take, ← chars_drop] at hlongest
        rw [← take_append_chars_drop n] at hnoMark hkeyword
        exact .inl ⟨_, _, leading_of_name hnumber hspelt hname,
          .name hnoMark hlongest ((noKeyword_iff hlongest).mp hkeyword)⟩
      | none =>
        exact .inr ⟨_, leading_of_none hnumber hspelt hname,
          .unexpected hnoMark (nameAutomaton_recognizes.noBeginning hname)⟩

theorem leading_of_leads {k : Kind} {front rest : List Char} (h : Leads k front rest)
    (heq : chars (g :: gs) = front ++ rest) : leading g gs = .ok (k, front.length) := by
  have hbegins : front <+: chars (g :: gs) := ⟨rest, heq.symm⟩
  cases h with
  | number h hrest =>
    apply leading_of_number
    · rw [heq]
      exact numberAutomaton_recognizes.longest_eq_some h
    · rw [chars_drop, heq, List.drop_left]
      exact hrest
  | pair hno hk h =>
    rw [← heq] at hno
    exact leading_of_spelt (numberAutomaton_recognizes.longest_eq_none hno.number)
      (speltKind_of_pair hk h hbegins)
  | single hno hk h =>
    rw [← heq] at hno
    exact leading_of_spelt (numberAutomaton_recognizes.longest_eq_none hno.number)
      (speltKind_of_single hno hk h hbegins)
  | keyword hno hname hk h =>
    rw [← heq] at hno
    exact leading_of_spelt (numberAutomaton_recognizes.longest_eq_none hno.number)
      (speltKind_of_keyword hno hk h hbegins)
  | name hno h hkeyword =>
    have hnoKeyword := (noKeyword_iff h).mpr hkeyword
    have hname := nameAutomaton_recognizes.longest_eq_some h
    rw [← heq] at hno hnoKeyword hname
    exact leading_of_name (numberAutomaton_recognizes.longest_eq_none hno.number)
      (speltKind_of_noMark hno hnoKeyword) hname

theorem leading_of_stuck {e : ScanError} (h : Stuck (g :: gs) e) : leading g gs = .error e := by
  generalize heq : g :: gs = hs at h
  cases h with
  | @badNumber g' last front rest h hlast =>
    obtain ⟨rfl, rfl⟩ := List.cons.inj heq
    have hnumber := numberAutomaton_recognizes.longest_eq_some h
    rw [← chars_append] at hnumber
    have hlength : (chars (g :: front)).length = (g :: front).length := List.length_map _
    rw [hlength] at hnumber
    have hdrop : (g :: (front ++ last :: rest)).drop (g :: front).length = last :: rest :=
      List.drop_left
    have htake := take_length_succ (g :: front) last rest
    rw [← htake]
    exact leading_of_badNumber hnumber hdrop hlast
  | unexpected hno hname =>
    obtain ⟨rfl, rfl⟩ := List.cons.inj heq
    exact leading_of_none (numberAutomaton_recognizes.longest_eq_none hno.number)
      (speltKind_of_noMark hno (noKeyword_of_noName hname))
      (nameAutomaton_recognizes.longest_eq_none hname)

end Leading

end Token
end MiniCheck
