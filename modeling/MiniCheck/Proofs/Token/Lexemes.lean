import MiniCheck.Proofs.Token.Rereading

/-!
# Which tokens can stand next to each other

Each kind has its lexemes, and a token with such a lexeme can stand in front of another one
unless the two would be read as one: a name or a number in front of a word or a number, and a
mark that goes on with an equals sign in front of one. These neighbours are the only ones that
no text has, so a list of tokens is read from some text exactly if it has none of them.
-/

namespace MiniCheck

section Beginnings

variable {α : Type} {P : List α → Prop} {a : α} {front rest : List α}

/-- A longest beginning cannot take in what comes next. -/
theorem Longest.not_append (h : Longest P front (a :: rest)) : ¬ P (front ++ [a]) := by
  intro hP
  have hbegins : front ++ [a] <+: front ++ a :: rest :=
    (List.prefix_append_right_inj front).mpr ⟨rest, rfl⟩
  have hle := h.greatest hbegins hP
  rw [List.length_append, List.length_singleton] at hle
  omega

/-- What has the property and cannot go on with the next symbol is the longest beginning. -/
theorem Longest.of_head (h : P front) (hrest : ∀ a ∈ rest.head?, ∀ word, P word → a ∉ word) :
    Longest P front rest := by
  refine ⟨h, fun {word} hword hP => ?_⟩
  by_contra hlength
  obtain ⟨b, more, rfl, rest', rfl⟩ := exists_beyond hword (Nat.lt_of_not_le hlength)
  exact hrest b rfl _ hP (List.mem_append_right front List.mem_cons_self)

/-- Nothing with the property begins with the symbol that is there. -/
theorem noBeginning_of_head (hnil : ¬ P []) (h : ∀ b word, P (b :: word) → b ≠ a) :
    NoBeginning P (a :: rest) := by
  rintro front hfront hP
  cases front with
  | nil => exact hnil hP
  | cons b word => exact h b word hP (List.cons_prefix_cons.mp hfront).1

end Beginnings

namespace Token

namespace Kind

/-- The kinds whose tokens begin with a letter, an underscore or a digit. -/
def words : List Kind := name :: number :: keywords

/-- The marks that make another mark with an equals sign. -/
def extensible : List Kind := [equal, bang, less, greater]

/-- The marks that begin with an equals sign. -/
def equals : List Kind := [equal, equalEqual]

end Kind

/-- The texts of the tokens of a kind. -/
inductive IsLexeme : Kind → List Char → Prop
  | number {cs : List Char} (h : IsNumber cs) : IsLexeme .number cs
  | name {cs : List Char} (h : IsName cs)
      (hkeyword : NoBeginning (IsSpelling Kind.keywords) cs) : IsLexeme .name cs
  | spelt {k : Kind} {cs : List Char} (h : k.spelling?.map String.toList = some cs) : IsLexeme k cs

/-- A token of kind `k` is not read together with one of kind `l` behind it. -/
structure Precedes (k l : Kind) : Prop where
  word : k ∈ [.name, .number] → l ∉ Kind.words
  mark : k ∈ Kind.extensible → l ∉ Kind.equals

/-! ## The first characters of lexemes -/

/-- What is true of each spelling is true of every one that is found. -/
theorem of_spelling {P : Kind → List Char → Prop} {k : Kind} {w : List Char}
    (h : ∀ k ∈ Kind.spelt, P k (k.spelling?.getD "").toList)
    (hk : k.spelling?.map String.toList = some w) : P k w := by
  obtain ⟨s, hs, rfl⟩ := Option.map_eq_some_iff.mp hk
  have hP := h k (Kind.mem_spelt_iff.mpr (by rw [hs]; rfl))
  rw [hs] at hP
  exact hP

/-- A character of names and numbers, but no point. -/
def IsWordChar (c : Char) : Prop := c.isAlphanum = true ∨ c = '_'

instance (c : Char) : Decidable (IsWordChar c) := inferInstanceAs (Decidable (_ ∨ _))

instance (c : Char) : Decidable (RunsOn c) := inferInstanceAs (Decidable (_ ∨ _))

/-- The character `c` is the first one of a token of kind `k`. -/
structure Begins (k : Kind) (c : Char) : Prop where
  word : k ∈ Kind.words → IsWordChar c
  mark : k ∉ Kind.words → ¬ RunsOn c ∧ ¬ IsWordChar c
  equal : c = '=' ↔ k ∈ Kind.equals
  point : c ≠ '.'

theorem isWordChar_of_isDigit {c : Char} (h : c.isDigit = true) : IsWordChar c :=
  .inl (Bool.or_eq_true_iff.mpr (.inr h))

theorem isWordChar_of_isAlpha {c : Char} (h : c.isAlpha = true ∨ c = '_') : IsWordChar c :=
  h.imp_left fun h => Bool.or_eq_true_iff.mpr (.inl h)

theorem begins_of_isWordChar {k : Kind} {c : Char} (hk : k ∈ Kind.words) (h : IsWordChar c) :
    Begins k c := by
  have hequal : k ∉ Kind.equals := by
    have hapart : ∀ k ∈ Kind.words, k ∉ Kind.equals := by decide
    exact hapart k hk
  refine ⟨fun _ => h, fun hno => absurd hk hno, ⟨?_, fun hk => absurd hk hequal⟩, ?_⟩
  · rintro rfl
    exact absurd h (by decide)
  · rintro rfl
    exact absurd h (by decide)

theorem exists_begins_of_spelling {k : Kind} {w : List Char}
    (h : k.spelling?.map String.toList = some w) : ∃ c cs, w = c :: cs ∧ Begins k c := by
  have hword : w.head?.any fun c => decide (k ∈ Kind.words → IsWordChar c) :=
    of_spelling (P := fun k w => w.head?.any fun c => decide (k ∈ Kind.words → IsWordChar c))
      (by decide +kernel) h
  have hmark : w.head?.all fun c => decide (k ∉ Kind.words → ¬ RunsOn c ∧ ¬ IsWordChar c) :=
    of_spelling (P := fun k w => w.head?.all fun c =>
      decide (k ∉ Kind.words → ¬ RunsOn c ∧ ¬ IsWordChar c)) (by decide +kernel) h
  have hequal : w.head?.all fun c => decide (c = '=' ↔ k ∈ Kind.equals) :=
    of_spelling (P := fun k w => w.head?.all fun c => decide (c = '=' ↔ k ∈ Kind.equals))
      (by decide +kernel) h
  have hpoint : w.head?.all fun c => decide (c ≠ '.') :=
    of_spelling (P := fun _ w => w.head?.all fun c => decide (c ≠ '.')) (by decide +kernel) h
  cases w with
  | nil => cases hword
  | cons c cs =>
    exact ⟨c, cs, rfl, of_decide_eq_true hword, of_decide_eq_true hmark, of_decide_eq_true hequal,
      of_decide_eq_true hpoint⟩

theorem IsLexeme.exists_begins {k : Kind} {w : List Char} (h : IsLexeme k w) :
    ∃ c cs, w = c :: cs ∧ Begins k c := by
  cases h with
  | number h =>
    cases w with
    | nil => exact absurd h not_isNumber_nil
    | cons c cs =>
      have hdigit := (isNumber_cons_iff.mp h).1
      exact ⟨c, cs, rfl, begins_of_isWordChar (by decide) (isWordChar_of_isDigit hdigit)⟩
  | name h hkeyword =>
    cases h with
    | @intro c cs h hrest =>
      exact ⟨c, cs, rfl, begins_of_isWordChar (by decide) (isWordChar_of_isAlpha h)⟩
  | spelt h => exact exists_begins_of_spelling h

/-! ## What comes behind a token -/

theorem IsNumber.append_digit {cs : List Char} {d : Char} (h : IsNumber cs)
    (hd : d.isDigit = true) : IsNumber (cs ++ [d]) := by
  have happend : ∀ ds : List Char, (∀ c ∈ ds, c.isDigit = true) →
      ∀ c ∈ ds ++ [d], c.isDigit = true := by
    intro ds hds
    rw [List.forall_mem_append, List.forall_mem_singleton]
    exact ⟨hds, hd⟩
  cases h with
  | whole hne h => exact .whole (List.append_ne_nil_of_left_ne_nil hne _) (happend _ h)
  | decimal hne h hne' h' =>
    rw [List.append_assoc, List.cons_append]
    exact .decimal hne h (List.append_ne_nil_of_left_ne_nil hne' _) (happend _ h')

theorem IsName.append_wordChar {cs : List Char} {d : Char} (h : IsName cs) (hd : IsWordChar d) :
    IsName (cs ++ [d]) := by
  cases h with
  | intro hfirst hrest =>
    exact .intro hfirst (List.forall_mem_append.mpr ⟨hrest, List.forall_mem_singleton.mpr hd⟩)

/-- The letters are ASCII characters, and they come behind the digits. -/
theorem toNat_of_isAlpha {c : Char} (h : c.isAlpha = true) : 0x40 < c.toNat ∧ c.toNat < 0x80 := by
  have hrange : ('A'.val ≤ c.val ∧ c.val ≤ 'Z'.val) ∨ ('a'.val ≤ c.val ∧ c.val ≤ 'z'.val) := by
    rcases Bool.or_eq_true_iff.mp h with hupper | hlower
    · exact .inl (of_decide_eq_true hupper)
    · obtain ⟨hfirst, hlast⟩ := Bool.and_eq_true_iff.mp hlower
      exact .inr ⟨of_decide_eq_true hfirst, of_decide_eq_true hlast⟩
  simp only [UInt32.le_iff_toNat_le] at hrange
  rcases hrange with ⟨hfirst, hlast⟩ | ⟨hfirst, hlast⟩
  · exact ⟨Nat.lt_of_lt_of_le (by decide) hfirst, Nat.lt_of_le_of_lt hlast (by decide)⟩
  · exact ⟨Nat.lt_of_lt_of_le (by decide) hfirst, Nat.lt_of_le_of_lt hlast (by decide)⟩

theorem runsOn_of_isWordChar {c : Char} (h : IsWordChar c) (hdigit : ¬ c.isDigit = true) :
    RunsOn c := by
  rcases h with h | h
  · have halpha : c.isAlpha = true := (Bool.or_eq_true_iff.mp h).resolve_right hdigit
    have hascii : c.toNat < 0x80 := (toNat_of_isAlpha halpha).2
    exact .inl ((Text.isAlphabetic_of_ascii hascii).trans halpha)
  · exact .inr h

namespace Leads

variable {k l : Kind} {front rest w : List Char}

theorem isLexeme (h : Leads k front rest) : IsLexeme k front := by
  cases h with
  | number h hrest => exact .number h.holds
  | pair hno hk h => exact .spelt h
  | single hno hk h => exact .spelt h
  | keyword hno hname hk h => exact .spelt h
  | name hno h hkeyword => exact .name h.holds hkeyword

/-- A mark that a longer one begins with does not stand where the longer one does. -/
theorem precedes_of_noPair (hno : NoPair (front ++ rest))
    (h : k.spelling?.map String.toList = some front) (hk : k ∈ Kind.extensible) :
    rest.head? ≠ some '=' := by
  intro hhead
  obtain ⟨more, rfl⟩ := List.head?_eq_some_iff.mp hhead
  have hpairs : ∀ k ∈ Kind.extensible, ∃ l ∈ Kind.pairs,
      l.spelling?.map String.toList = some ((k.spelling?.getD "").toList ++ ['=']) := by
    decide +kernel
  obtain ⟨l, hl, hspelling⟩ := hpairs k hk
  obtain ⟨s, hs, rfl⟩ := Option.map_eq_some_iff.mp h
  rw [hs] at hspelling
  refine hno.pair _ ?_ ⟨l, hl, hspelling⟩
  exact (List.prefix_append_right_inj _).mpr ⟨more, rfl⟩

/-- What stands right behind a token is not read together with it. -/
theorem precedes (h : Leads k front (w ++ rest)) (hw : IsLexeme l w) : Precedes k l := by
  obtain ⟨c, cs, rfl, hc⟩ := hw.exists_begins
  have hpairs : ∀ k ∈ Kind.pairs, k ∉ [.name, .number] ∧ k ∉ Kind.extensible := by decide
  have hsingles : ∀ k ∈ Kind.singles, k ∉ [.name, .number] := by decide
  have hkeywords : ∀ k ∈ Kind.keywords, k ∉ [.name, .number] ∧ k ∉ Kind.extensible := by decide
  generalize htail : c :: cs ++ rest = tail at h
  cases h with
  | number h hrest =>
    subst htail
    refine ⟨fun _ hl => ?_, fun hk => absurd hk (by decide)⟩
    have hdigit : ¬ c.isDigit = true := fun hdigit => h.not_append (h.holds.append_digit hdigit)
    exact hrest c rfl (runsOn_of_isWordChar (hc.word hl) hdigit)
  | pair hno hk h =>
    exact ⟨fun hno => absurd hno (hpairs k hk).1, fun hno => absurd hno (hpairs k hk).2⟩
  | single hno hk h =>
    subst htail
    refine ⟨fun hno => absurd hno (hsingles k hk), fun hk hl => ?_⟩
    apply precedes_of_noPair hno h hk
    rw [hc.equal.mpr hl]
    rfl
  | keyword hno hname hk h =>
    exact ⟨fun hno => absurd hno (hkeywords k hk).1, fun hno => absurd hno (hkeywords k hk).2⟩
  | name hno h hkeyword =>
    subst htail
    refine ⟨fun _ hl => ?_, fun hk => absurd hk (by decide)⟩
    exact h.not_append (h.holds.append_wordChar (hc.word hl))

end Leads

/-! ## Lexemes are read where they stand -/

theorem noNumber_of_head {c : Char} {cs : List Char} (h : ¬ c.isDigit = true) :
    NoNumber (c :: cs) := by
  refine ⟨noBeginning_of_head not_isNumber_nil fun b word hword heq => h ?_⟩
  rw [← heq]
  exact (isNumber_cons_iff.mp hword).1

/-- No mark begins with a character of words. -/
theorem noSpelling_of_head {ks : List Kind} {c : Char} {cs : List Char}
    (hks : ∀ k ∈ ks, k ∉ Kind.words) (h : IsWordChar c) :
    NoBeginning (IsSpelling ks) (c :: cs) := by
  refine noBeginning_of_head ?_ ?_
  · rintro ⟨k, _, hspelling⟩
    obtain ⟨d, ds, hcons, _⟩ := exists_begins_of_spelling hspelling
    cases hcons
  · rintro b word ⟨k, hk, hspelling⟩ rfl
    obtain ⟨d, ds, hcons, hd⟩ := exists_begins_of_spelling hspelling
    cases hcons
    exact (hd.mark (hks k hk)).2 h

theorem noMark_of_head {c : Char} {cs : List Char} (h : IsWordChar c)
    (hdigit : ¬ c.isDigit = true) : NoMark (c :: cs) :=
  ⟨⟨noNumber_of_head hdigit, noSpelling_of_head (by decide) h⟩, noSpelling_of_head (by decide) h⟩

theorem not_isDigit_of_isAlpha {c : Char} (h : c.isAlpha = true ∨ c = '_') :
    ¬ c.isDigit = true := by
  rcases h with h | rfl
  · intro hdigit
    have hle : c.toNat ≤ 0x39 := by
      obtain ⟨_, hle⟩ := Bool.and_eq_true_iff.mp hdigit
      exact UInt32.le_iff_toNat_le.mp (of_decide_eq_true hle)
    have hlt := (toNat_of_isAlpha h).1
    omega
  · decide

/-- The rest `rest` does not go on with what could belong to a token of kind `k`. -/
def Follows (k : Kind) (rest : List Char) : Prop :=
  ∀ c ∈ rest.head?, ∃ l, Begins l c ∧ Precedes k l

theorem leads_of_number {front rest : List Char} (h : IsNumber front)
    (hrest : Follows .number rest) : Leads .number front rest := by
  have hmark : ∀ c ∈ rest.head?, (¬ RunsOn c ∧ ¬ IsWordChar c) ∧ c ≠ '.' := by
    intro c hc
    obtain ⟨l, hbegins, hprecedes⟩ := hrest c hc
    exact ⟨hbegins.mark (hprecedes.word (by decide)), hbegins.point⟩
  refine .number (.of_head h fun c hc word hword hmem => ?_) fun c hc => (hmark c hc).1.1
  rcases hword.mem c hmem with hdigit | hpoint
  · exact (hmark c hc).1.2 (isWordChar_of_isDigit hdigit)
  · exact (hmark c hc).2 hpoint

theorem leads_of_name {front rest : List Char} (h : IsName front)
    (hkeyword : NoBeginning (IsSpelling Kind.keywords) front) (hrest : Follows .name rest) :
    Leads .name front rest := by
  have hno : NoMark (front ++ rest) := by
    cases h with
    | intro h _ => exact noMark_of_head (isWordChar_of_isAlpha h) (not_isDigit_of_isAlpha h)
  refine .name hno (.of_head h fun c hc word hword hmem => ?_) hkeyword
  obtain ⟨l, hbegins, hprecedes⟩ := hrest c hc
  exact (hbegins.mark (hprecedes.word (by decide))).2 (hword.mem c hmem)

theorem noNumber_of_mark {k : Kind} {front : List Char} (hk : k ∉ Kind.words)
    (h : k.spelling?.map String.toList = some front) (rest : List Char) :
    NoNumber (front ++ rest) := by
  obtain ⟨c, cs, rfl, hc⟩ := exists_begins_of_spelling h
  exact noNumber_of_head fun hdigit => (hc.mark hk).2 (isWordChar_of_isDigit hdigit)

/-- A mark of one character could only be the beginning of one with an equals sign. -/
theorem noPair_of_single {k : Kind} {front rest : List Char} (hk : k ∈ Kind.singles)
    (h : k.spelling?.map String.toList = some front) (hrest : Follows k rest) :
    NoPair (front ++ rest) := by
  have hwords : ∀ k ∈ Kind.singles, k ∉ Kind.words := by decide
  have hpairs : ∀ k ∈ Kind.singles, ∀ l ∈ Kind.pairs,
      (k.spelling?.getD "").toList.head? = (l.spelling?.getD "").toList.head? →
        k ∈ Kind.extensible ∧ (l.spelling?.getD "").toList.tail = ['='] := by
    decide +kernel
  have hlengths : ∀ k ∈ Kind.singles, (k.spelling?.getD "").toList.length = 1 := by decide +kernel
  have hlengths' : ∀ l ∈ Kind.pairs, (l.spelling?.getD "").toList.length = 2 := by decide +kernel
  refine ⟨noNumber_of_mark (hwords k hk) h rest, ?_⟩
  -- A pair that begins here shares its first character with the mark, so it goes on with `=`.
  rintro word hword ⟨l, hl, hspelling⟩
  obtain ⟨s, hs, rfl⟩ := Option.map_eq_some_iff.mp h
  obtain ⟨t, ht, rfl⟩ := Option.map_eq_some_iff.mp hspelling
  have hfacts := hpairs k hk l hl
  have hlength := hlengths k hk
  have hlength' := hlengths' l hl
  rw [hs, Option.getD_some] at hfacts hlength
  rw [ht, Option.getD_some] at hfacts hlength'
  obtain ⟨a, ha⟩ := List.length_eq_one_iff.mp hlength
  obtain ⟨b, d, hbd⟩ := List.length_eq_two.mp hlength'
  rw [ha, hbd] at hfacts
  rw [ha, hbd, List.singleton_append, List.cons_prefix_cons] at hword
  obtain ⟨rfl, rest, rfl⟩ := hword
  obtain ⟨hextensible, hd⟩ := hfacts rfl
  obtain rfl : d = '=' := (List.cons.inj hd).1
  obtain ⟨m, hbegins, hprecedes⟩ := hrest '=' rfl
  exact hprecedes.mark hextensible (hbegins.equal.mp rfl)

theorem leads_of_keyword {k : Kind} {front : List Char} (hk : k ∈ Kind.keywords)
    (h : k.spelling?.map String.toList = some front) (rest : List Char) : Leads k front rest := by
  obtain ⟨more, rest', rfl, hname⟩ := exists_name_of_keyword hk h rest
  refine .keyword ?_ hname hk h
  cases isName_keyword hk h with
  | intro hfirst _ =>
    exact noMark_of_head (isWordChar_of_isAlpha hfirst) (not_isDigit_of_isAlpha hfirst)

/-- In front of what does not go on with it, a lexeme is a token. -/
theorem IsLexeme.leads {k : Kind} {front rest : List Char} (h : IsLexeme k front)
    (hrest : Follows k rest) : Leads k front rest := by
  cases h with
  | number h => exact leads_of_number h hrest
  | name h hkeyword => exact leads_of_name h hkeyword hrest
  | spelt h =>
    have hpairs : ∀ k ∈ Kind.pairs, k ∉ Kind.words := by decide
    have hk : k ∈ Kind.spelt := by
      obtain ⟨s, hs, _⟩ := Option.map_eq_some_iff.mp h
      exact Kind.mem_spelt_iff.mpr (by rw [hs]; rfl)
    rw [Kind.spelt, List.mem_append, List.mem_append] at hk
    rcases hk with (hk | hk) | hk
    · exact .pair (noNumber_of_mark (hpairs k hk) h rest) hk h
    · exact .single (noPair_of_single hk h hrest) hk h
    · exact leads_of_keyword hk h rest

/-! ## Lists of tokens -/

/-- Each token has a lexeme of its kind, and none is read together with the one behind it. -/
structure Readable (cs : List (Kind × String)) : Prop where
  lexemes : ∀ c ∈ cs, IsLexeme c.1 c.2.toList
  neighbours : cs.IsChain fun c d => Precedes c.1 d.1

/-- The lexemes, one right after the other. -/
def lexemeChars (cs : List (Kind × String)) : List Char := cs.flatMap fun c => c.2.toList

section Lists

variable {c : Kind × String} {cs : List (Kind × String)} {gs hs rest : List Glyph}
  {ts us : List Token}

theorem readable_nil : Readable [] := ⟨fun _ hc => absurd hc List.not_mem_nil, .nil⟩

theorem readable_cons_iff :
    Readable (c :: cs) ↔
      (IsLexeme c.1 c.2.toList ∧ ∀ d ∈ cs.head?, Precedes c.1 d.1) ∧ Readable cs := by
  constructor
  · rintro ⟨hlexemes, hneighbours⟩
    rw [List.forall_mem_cons] at hlexemes
    rw [List.isChain_cons] at hneighbours
    exact ⟨⟨hlexemes.1, hneighbours.1⟩, hlexemes.2, hneighbours.2⟩
  · rintro ⟨⟨hlexeme, hnext⟩, hlexemes, hneighbours⟩
    exact ⟨List.forall_mem_cons.mpr ⟨hlexeme, hlexemes⟩,
      List.isChain_cons.mpr ⟨hnext, hneighbours⟩⟩

theorem Readable.follows (h : Readable (c :: cs)) : Follows c.1 (lexemeChars cs) := by
  obtain ⟨⟨_, hnext⟩, hcs⟩ := readable_cons_iff.mp h
  intro a ha
  cases cs with
  | nil => cases ha
  | cons d cs =>
    obtain ⟨b, more, hd, hbegins⟩ := (hcs.lexemes d List.mem_cons_self).exists_begins
    rw [lexemeChars, List.flatMap_cons, hd] at ha
    cases ha
    exact ⟨d.1, hbegins, hnext d rfl⟩

theorem Divides.chars_eq_lexemes (h : Divides gs ts []) :
    chars gs = lexemeChars (ts.map content) := by
  rw [h.chars_eq, lexemeChars, List.flatMap_map]
  exact List.append_nil _

theorem Divides.readable (h : Divides gs ts rest) (hrest : rest = []) :
    Readable (ts.map content) := by
  induction h with
  | nil => exact readable_nil
  | @cons k g front gs rest ts h hdivides ih =>
    have hread := ih hrest
    subst hrest
    have hlexeme : (Glyph.spelling (g :: front)).toList = chars (g :: front) := String.toList_ofList
    refine readable_cons_iff.mpr ⟨⟨?_, fun d hd => ?_⟩, hread⟩
    · change IsLexeme k (Glyph.spelling (g :: front)).toList
      rw [hlexeme]
      exact h.isLexeme
    · obtain ⟨ds, hds⟩ := List.head?_eq_some_iff.mp hd
      have hchars := hdivides.chars_eq_lexemes
      rw [hds, lexemeChars, List.flatMap_cons] at hchars
      rw [hchars] at h
      rw [hds] at hread
      exact h.precedes (hread.lexemes d List.mem_cons_self)

/-- Glyphs that spell the lexemes are divided into tokens of these contents. -/
theorem Readable.exists_divides (h : Readable cs) (hgs : chars gs = lexemeChars cs) :
    ∃ ts, Divides gs ts [] ∧ ts.map content = cs := by
  induction cs generalizing gs with
  | nil =>
    obtain rfl : gs = [] := List.map_eq_nil_iff.mp hgs
    exact ⟨[], .nil, rfl⟩
  | cons c cs ih =>
    obtain ⟨⟨hlexeme, _⟩, hcs⟩ := readable_cons_iff.mp h
    rw [lexemeChars, List.flatMap_cons] at hgs
    obtain ⟨front, later, rfl, hfront, hlater⟩ := List.map_eq_append_iff.mp hgs
    obtain ⟨a, more, hcons, _⟩ := hlexeme.exists_begins
    cases front with
    | nil =>
      rw [hcons] at hfront
      cases hfront
    | cons g front =>
      obtain ⟨ts, hts, hcontent⟩ := ih hcs hlater
      have hleads : Leads c.1 (chars (g :: front)) (chars later) := by
        have hchars : chars (g :: front) = c.2.toList := hfront
        have hchars' : chars later = lexemeChars cs := hlater
        rw [hchars, hchars']
        exact hlexeme.leads h.follows
      refine ⟨_, .cons hleads hts, ?_⟩
      have hspelling : Glyph.spelling (g :: front) = c.2 := by
        rw [Glyph.spelling, hfront, String.ofList_toList]
      rw [List.map_cons, hcontent, content, hspelling]

/-- Two lists of glyphs are divided one after the other, if the tokens that meet are not read
together. -/
theorem Divides.append (h : Divides gs ts rest) (hrest : rest = []) (h' : Divides hs us [])
    (hmeet : ∀ t ∈ ts.getLast?, ∀ u ∈ us.head?, Precedes t.kind u.kind) :
    Divides (gs ++ hs) (ts ++ us) [] := by
  induction h with
  | nil =>
    subst hrest
    exact h'
  | @cons k g front gs rest ts h hdivides ih =>
    have halone := (Divides.cons h hdivides).readable hrest
    subst hrest
    have hboth := ih rfl fun t ht => hmeet t (by rw [List.getLast?_cons, Option.mem_def.mp ht]; rfl)
    rw [List.map_cons, readable_cons_iff] at halone
    -- the next token is one of the first list, or the first one of the second
    have hnext : ∀ d ∈ ((ts ++ us).map content).head?, Precedes k d.1 := by
      cases ts with
      | nil =>
        rw [List.nil_append, List.head?_map]
        rintro d hd
        obtain ⟨u, hu, rfl⟩ := Option.map_eq_some_iff.mp hd
        exact hmeet _ rfl u hu
      | cons t ts => exact halone.1.2
    have hread : Readable ((k, Glyph.spelling (g :: front)) :: (ts ++ us).map content) :=
      readable_cons_iff.mpr ⟨⟨halone.1.1, hnext⟩, hboth.readable rfl⟩
    have hleads : Leads k (chars (g :: front)) (chars (gs ++ hs)) := by
      rw [hboth.chars_eq_lexemes]
      exact h.isLexeme.leads hread.follows
    rw [List.append_assoc, List.cons_append]
    exact .cons hleads hboth

end Lists

end Token
end MiniCheck
