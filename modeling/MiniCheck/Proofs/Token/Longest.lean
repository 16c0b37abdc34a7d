import MiniCheck.Token.Scan

/-!
# The longest accepted beginnings of words

What it is for a beginning to be the longest of its sort, apart from any way to find it.
An automaton finds it, also where it reads on past the last accepting state. For the two
automata of the language the accepted words are described without their states.
-/

namespace MiniCheck

section Beginnings

variable {α : Type} (P : List α → Prop)

/-- Of all beginnings of `front ++ rest` with the property, `front` is the longest. -/
structure Longest (front rest : List α) : Prop where
  holds : P front
  greatest : ∀ {word : List α}, word <+: front ++ rest → P word → word.length ≤ front.length

/-- No beginning has the property. -/
def NoBeginning (word : List α) : Prop := ∀ front, front <+: word → ¬ P front

variable {P}

/-- A beginning that is longer than `front` goes on with what stands behind it. -/
theorem exists_beyond {front rest word : List α} (hword : word <+: front ++ rest)
    (hlt : front.length < word.length) : ∃ x xs, word = front ++ x :: xs ∧ x :: xs <+: rest := by
  obtain ⟨tail, rfl⟩ := List.prefix_of_prefix_length_le (List.prefix_append front rest) hword
    (Nat.le_of_lt hlt)
  rw [List.prefix_append_right_inj] at hword
  cases tail with
  | nil =>
    rw [List.append_nil] at hlt
    exact absurd hlt (Nat.lt_irrefl _)
  | cons x xs => exact ⟨x, xs, rfl, hword⟩

theorem Longest.not_noBeginning {front rest : List α} (h : Longest P front rest) :
    ¬ NoBeginning P (front ++ rest) := fun hno =>
  hno front (List.prefix_append _ _) h.holds

theorem Longest.length_unique {front rest front' rest' : List α} (h : Longest P front rest)
    (h' : Longest P front' rest') (heq : front ++ rest = front' ++ rest') :
    front.length = front'.length := by
  apply Nat.le_antisymm
  · apply h'.greatest _ h.holds
    rw [← heq]
    exact List.prefix_append _ _
  · apply h.greatest _ h'.holds
    rw [heq]
    exact List.prefix_append _ _

end Beginnings

namespace Automaton

variable {Symbol : Type} (A : Automaton Symbol)

def AcceptsFrom (s : A.State) (word : List Symbol) : Prop :=
  ∃ t, A.run s word = some t ∧ A.accepting t = true

variable {A}

theorem acceptsFrom_nil {s : A.State} : A.AcceptsFrom s [] ↔ A.accepting s = true := by
  simp [AcceptsFrom, run]

theorem acceptsFrom_cons {s : A.State} {x : Symbol} {xs : List Symbol} :
    A.AcceptsFrom s (x :: xs) ↔ ∃ t, A.step s x = some t ∧ A.AcceptsFrom t xs := by
  unfold AcceptsFrom
  simp only [run]
  cases hstep : A.step s x with
  | none => simp
  | some t => simp

theorem acceptsFrom_cons_of_step {s t : A.State} {x : Symbol} {xs : List Symbol}
    (h : A.step s x = some t) : A.AcceptsFrom s (x :: xs) ↔ A.AcceptsFrom t xs := by
  rw [acceptsFrom_cons, h]
  constructor
  · rintro ⟨u, hu, haccepts⟩
    cases hu
    exact haccepts
  · intro haccepts
    exact ⟨t, rfl, haccepts⟩

/-- A state that cannot go on accepts at most the empty word. -/
theorem not_acceptsFrom_of_stuck {s : A.State} {x : Symbol} {xs : List Symbol}
    (h : A.step s x = none) : ¬ A.AcceptsFrom s (x :: xs) := by
  rw [acceptsFrom_cons]
  rintro ⟨t, ht, _⟩
  rw [h] at ht
  cases ht

theorem not_acceptsFrom_of_longestFrom {s : A.State} {word : List Symbol}
    (h : A.longestFrom s word = none) {x : Symbol} {xs : List Symbol}
    (hfront : x :: xs <+: word) : ¬ A.AcceptsFrom s (x :: xs) := by
  induction word generalizing s x xs with
  | nil => exact absurd hfront (by simp)
  | cons y ys ih =>
    obtain ⟨rfl, hxs⟩ := List.cons_prefix_cons.mp hfront
    simp only [longestFrom] at h
    cases hstep : A.step s x with
    | none => exact not_acceptsFrom_of_stuck hstep
    | some t =>
      simp only [hstep] at h
      cases hlater : A.longestFrom t ys with
      | some n => simp [hlater] at h
      | none =>
        rw [acceptsFrom_cons]
        rintro ⟨u, hu, haccepts⟩
        rw [hstep] at hu
        cases hu
        cases xs with
        | nil => simp [hlater, acceptsFrom_nil.mp haccepts] at h
        | cons z zs => exact ih hlater hxs haccepts

theorem acceptsFrom_take_of_longestFrom {s : A.State} {word : List Symbol} {n : Nat}
    (h : A.longestFrom s word = some n) : A.AcceptsFrom s (word.take n) := by
  induction word generalizing s n with
  | nil => simp [longestFrom] at h
  | cons x xs ih =>
    simp only [longestFrom] at h
    cases hstep : A.step s x with
    | none => simp [hstep] at h
    | some t =>
      simp only [hstep] at h
      cases hlater : A.longestFrom t xs with
      | some m =>
        simp only [hlater, Option.some.injEq] at h
        subst h
        rw [List.take_succ_cons, acceptsFrom_cons]
        exact ⟨t, hstep, ih hlater⟩
      | none =>
        simp only [hlater, Option.ite_none_right_eq_some, Option.some.injEq] at h
        obtain ⟨haccepting, rfl⟩ := h
        rw [List.take_succ_cons, List.take_zero, acceptsFrom_cons]
        exact ⟨t, hstep, acceptsFrom_nil.mpr haccepting⟩

theorem length_le_of_longestFrom {s : A.State} {word front : List Symbol} {n : Nat}
    (h : A.longestFrom s word = some n) (hfront : front <+: word)
    (haccepts : A.AcceptsFrom s front) : front.length ≤ n := by
  induction word generalizing s n front with
  | nil => simp [longestFrom] at h
  | cons x xs ih =>
    cases front with
    | nil => exact Nat.zero_le _
    | cons y ys =>
      obtain ⟨rfl, hys⟩ := List.cons_prefix_cons.mp hfront
      obtain ⟨t, hstep, hlater⟩ := acceptsFrom_cons.mp haccepts
      simp only [longestFrom, hstep] at h
      cases hrest : A.longestFrom t xs with
      | some m =>
        simp only [hrest, Option.some.injEq] at h
        have hle := ih hrest hys hlater
        rw [List.length_cons]
        omega
      | none =>
        simp only [hrest, Option.ite_none_right_eq_some, Option.some.injEq] at h
        obtain ⟨_, rfl⟩ := h
        cases ys with
        | nil => exact Nat.le_refl _
        | cons z zs => exact absurd hlater (not_acceptsFrom_of_longestFrom hrest hys)

/-- The accepted words are those with the property, and the empty word is not one of them. -/
structure Recognizes (A : Automaton Symbol) (P : List Symbol → Prop) : Prop where
  start : A.accepting A.start = false
  accepts_iff {word : List Symbol} : A.Accepts word ↔ P word

namespace Recognizes

variable {P : List Symbol → Prop} {word front rest : List Symbol}

theorem longest (hA : A.Recognizes P) {n : Nat} (h : A.longest word = some n) :
    Longest P (word.take n) (word.drop n) := by
  refine ⟨hA.accepts_iff.mp (acceptsFrom_take_of_longestFrom h), ?_⟩
  intro front hfront hP
  rw [List.take_append_drop] at hfront
  rw [List.length_take_of_le (A.longest_pos h).2]
  exact length_le_of_longestFrom h hfront (hA.accepts_iff.mpr hP)

theorem noBeginning (hA : A.Recognizes P) (h : A.longest word = none) : NoBeginning P word := by
  intro front hfront hP
  have haccepts := hA.accepts_iff.mpr hP
  cases front with
  | nil =>
    have hstart := hA.start
    rw [acceptsFrom_nil.mp haccepts] at hstart
    cases hstart
  | cons x xs => exact not_acceptsFrom_of_longestFrom h hfront haccepts

theorem longest_eq_some (hA : A.Recognizes P) (h : Longest P front rest) :
    A.longest (front ++ rest) = some front.length := by
  cases hlongest : A.longest (front ++ rest) with
  | none => exact absurd (hA.noBeginning hlongest) h.not_noBeginning
  | some n =>
    have hlength := h.length_unique (hA.longest hlongest) (List.take_append_drop _ _).symm
    rw [List.length_take_of_le (A.longest_pos hlongest).2] at hlength
    rw [hlength]

theorem longest_eq_none (hA : A.Recognizes P) (h : NoBeginning P word) : A.longest word = none := by
  cases hlongest : A.longest word with
  | none => rfl
  | some n => exact absurd (hA.longest hlongest).holds (h _ (List.take_prefix _ _))

end Recognizes

end Automaton

namespace Token

/-! ## Numbers and names -/

/-- Digits, or digits, a point and digits. -/
inductive IsNumber : List Char → Prop
  | whole {ds : List Char} (hne : ds ≠ []) (h : ∀ d ∈ ds, d.isDigit = true) : IsNumber ds
  | decimal {ds es : List Char} (hne : ds ≠ []) (h : ∀ d ∈ ds, d.isDigit = true) (hne' : es ≠ [])
      (h' : ∀ e ∈ es, e.isDigit = true) : IsNumber (ds ++ '.' :: es)

/-- An ASCII letter or underscore, then letters, digits and underscores. -/
inductive IsName : List Char → Prop
  | intro {c : Char} {cs : List Char} (h : c.isAlpha = true ∨ c = '_')
      (hrest : ∀ d ∈ cs, d.isAlphanum = true ∨ d = '_') : IsName (c :: cs)

section Numbers

/-- What the automaton of numbers accepts from a state. -/
def ReadsNumber (s : NumberState) (cs : List Char) : Prop := numberAutomaton.AcceptsFrom s cs

variable {c : Char} {cs : List Char}

theorem readsNumber_nil {s : NumberState} :
    ReadsNumber s [] ↔ numberAutomaton.accepting s = true := Automaton.acceptsFrom_nil

theorem readsNumber_cons {s t : NumberState} (h : numberAutomaton.step s c = some t) :
    ReadsNumber s (c :: cs) ↔ ReadsNumber t cs := Automaton.acceptsFrom_cons_of_step h

theorem readsNumber_fraction_iff : ReadsNumber .fraction cs ↔ ∀ c ∈ cs, c.isDigit = true := by
  induction cs with
  | nil =>
    apply readsNumber_nil.trans
    simp [numberAutomaton]
  | cons c cs ih =>
    rw [List.forall_mem_cons, ← ih]
    by_cases hc : c.isDigit = true
    · have hstep : numberAutomaton.step .fraction c = some .fraction := if_pos hc
      simp [readsNumber_cons hstep, hc]
    · have hstep : numberAutomaton.step .fraction c = none := if_neg hc
      have hno : ¬ ReadsNumber .fraction (c :: cs) := Automaton.not_acceptsFrom_of_stuck hstep
      simp [hno, hc]

theorem readsNumber_point_iff :
    ReadsNumber .point cs ↔ cs ≠ [] ∧ ∀ c ∈ cs, c.isDigit = true := by
  cases cs with
  | nil =>
    apply readsNumber_nil.trans
    simp [numberAutomaton]
  | cons c cs =>
    rw [List.forall_mem_cons, ← readsNumber_fraction_iff]
    by_cases hc : c.isDigit = true
    · have hstep : numberAutomaton.step .point c = some .fraction := if_pos hc
      simp [readsNumber_cons hstep, hc]
    · have hstep : numberAutomaton.step .point c = none := if_neg hc
      have hno : ¬ ReadsNumber .point (c :: cs) := Automaton.not_acceptsFrom_of_stuck hstep
      simp [hno, hc]

/-- Digits, perhaps none, or digits, a point and digits. -/
def IsTail (cs : List Char) : Prop :=
  (∀ c ∈ cs, c.isDigit = true) ∨
    ∃ ds es, cs = ds ++ '.' :: es ∧ (∀ d ∈ ds, d.isDigit = true) ∧ es ≠ [] ∧
      ∀ e ∈ es, e.isDigit = true

theorem isTail_cons_digit (hc : c.isDigit = true) : IsTail (c :: cs) ↔ IsTail cs := by
  unfold IsTail
  constructor
  · rintro (h | ⟨ds, es, heq, hds, hne, hes⟩)
    · exact .inl fun d hd => h d (List.mem_cons_of_mem _ hd)
    · cases ds with
      | nil =>
        obtain ⟨rfl, _⟩ := List.cons.inj heq
        exact absurd hc (by decide)
      | cons d ds =>
        obtain ⟨rfl, hrest⟩ := List.cons.inj heq
        exact .inr ⟨ds, es, hrest, (List.forall_mem_cons.mp hds).2, hne, hes⟩
  · rintro (h | ⟨ds, es, rfl, hds, hne, hes⟩)
    · exact .inl (List.forall_mem_cons.mpr ⟨hc, h⟩)
    · exact .inr ⟨c :: ds, es, rfl, List.forall_mem_cons.mpr ⟨hc, hds⟩, hne, hes⟩

theorem isTail_cons_of_not_digit (hc : ¬ c.isDigit = true) :
    IsTail (c :: cs) ↔ c = '.' ∧ cs ≠ [] ∧ ∀ e ∈ cs, e.isDigit = true := by
  unfold IsTail
  constructor
  · rintro (h | ⟨ds, es, heq, hds, hne, hes⟩)
    · exact absurd (h c List.mem_cons_self) hc
    · cases ds with
      | nil =>
        obtain ⟨rfl, rfl⟩ := List.cons.inj heq
        exact ⟨rfl, hne, hes⟩
      | cons d ds =>
        obtain ⟨rfl, _⟩ := List.cons.inj heq
        exact absurd (hds c List.mem_cons_self) hc
  · rintro ⟨rfl, hne, hes⟩
    exact .inr ⟨[], cs, rfl, fun _ hd => absurd hd List.not_mem_nil, hne, hes⟩

theorem readsNumber_whole_iff : ReadsNumber .whole cs ↔ IsTail cs := by
  induction cs with
  | nil =>
    apply readsNumber_nil.trans
    simp [numberAutomaton, IsTail]
  | cons c cs ih =>
    by_cases hc : c.isDigit = true
    · have hstep : numberAutomaton.step .whole c = some .whole := if_pos hc
      rw [readsNumber_cons hstep, ih, isTail_cons_digit hc]
    · rw [isTail_cons_of_not_digit hc, ← readsNumber_point_iff]
      by_cases hpoint : c = '.'
      · have hstep : numberAutomaton.step .whole c = some .point :=
          (if_neg hc).trans (if_pos hpoint)
        rw [readsNumber_cons hstep]
        simp [hpoint]
      · have hstep : numberAutomaton.step .whole c = none := (if_neg hc).trans (if_neg hpoint)
        have hno : ¬ ReadsNumber .whole (c :: cs) := Automaton.not_acceptsFrom_of_stuck hstep
        simp [hno, hpoint]

theorem isNumber_cons_iff : IsNumber (c :: cs) ↔ c.isDigit = true ∧ IsTail cs := by
  constructor
  · intro h
    generalize heq : c :: cs = word at h
    cases h with
    | whole hne h =>
      subst heq
      obtain ⟨hc, hcs⟩ := List.forall_mem_cons.mp h
      exact ⟨hc, .inl hcs⟩
    | @decimal ds es hne h hne' h' =>
      cases ds with
      | nil => exact absurd rfl hne
      | cons d ds =>
        obtain ⟨rfl, rfl⟩ := List.cons.inj heq
        obtain ⟨hc, hds⟩ := List.forall_mem_cons.mp h
        exact ⟨hc, .inr ⟨ds, es, rfl, hds, hne', h'⟩⟩
  · rintro ⟨hc, h | ⟨ds, es, rfl, hds, hne, hes⟩⟩
    · exact .whole (List.cons_ne_nil _ _) (List.forall_mem_cons.mpr ⟨hc, h⟩)
    · exact .decimal (List.cons_ne_nil c ds) (List.forall_mem_cons.mpr ⟨hc, hds⟩) hne hes

theorem not_isNumber_nil : ¬ IsNumber [] := by
  intro h
  generalize heq : [] = word at h
  cases h with
  | whole hne _ => exact hne heq.symm
  | decimal hne _ _ _ =>
    have hlength := congrArg List.length heq
    simp at hlength

theorem accepts_number_iff : numberAutomaton.Accepts cs ↔ IsNumber cs := by
  change ReadsNumber .start cs ↔ IsNumber cs
  cases cs with
  | nil =>
    apply readsNumber_nil.trans
    simp [numberAutomaton, not_isNumber_nil]
  | cons c cs =>
    rw [isNumber_cons_iff]
    by_cases hc : c.isDigit = true
    · have hstep : numberAutomaton.step .start c = some .whole := if_pos hc
      rw [readsNumber_cons hstep, readsNumber_whole_iff]
      simp [hc]
    · have hstep : numberAutomaton.step .start c = none := if_neg hc
      have hno : ¬ ReadsNumber .start (c :: cs) := Automaton.not_acceptsFrom_of_stuck hstep
      simp [hno, hc]

theorem numberAutomaton_recognizes : numberAutomaton.Recognizes IsNumber :=
  ⟨rfl, accepts_number_iff⟩

end Numbers

section Names

variable {c : Char} {cs : List Char}

/-- What the automaton of names accepts from a state. -/
def ReadsName (s : NameState) (cs : List Char) : Prop := nameAutomaton.AcceptsFrom s cs

theorem readsName_nil {s : NameState} : ReadsName s [] ↔ nameAutomaton.accepting s = true :=
  Automaton.acceptsFrom_nil

theorem readsName_cons {s t : NameState} (h : nameAutomaton.step s c = some t) :
    ReadsName s (c :: cs) ↔ ReadsName t cs := Automaton.acceptsFrom_cons_of_step h

theorem readsName_body_iff :
    ReadsName .body cs ↔ ∀ d ∈ cs, d.isAlphanum = true ∨ d = '_' := by
  induction cs with
  | nil =>
    apply readsName_nil.trans
    simp [nameAutomaton]
  | cons c cs ih =>
    rw [List.forall_mem_cons, ← ih]
    by_cases hc : c.isAlphanum = true ∨ c = '_'
    · have hstep : nameAutomaton.step .body c = some .body := if_pos (by simpa using hc)
      rw [readsName_cons hstep]
      simp [hc]
    · have hstep : nameAutomaton.step .body c = none := if_neg (by simpa using hc)
      have hno : ¬ ReadsName .body (c :: cs) := Automaton.not_acceptsFrom_of_stuck hstep
      simp [hno, hc]

theorem isName_cons_iff :
    IsName (c :: cs) ↔
      (c.isAlpha = true ∨ c = '_') ∧ ∀ d ∈ cs, d.isAlphanum = true ∨ d = '_' := by
  constructor
  · intro h
    cases h with
    | intro h hrest => exact ⟨h, hrest⟩
  · rintro ⟨h, hrest⟩
    exact .intro h hrest

theorem accepts_name_iff : nameAutomaton.Accepts cs ↔ IsName cs := by
  change ReadsName .start cs ↔ IsName cs
  cases cs with
  | nil =>
    apply readsName_nil.trans
    constructor
    · intro h
      cases h
    · intro h
      cases h
  | cons c cs =>
    rw [isName_cons_iff]
    by_cases hc : c.isAlpha = true ∨ c = '_'
    · have hstep : nameAutomaton.step .start c = some .body := if_pos (by simpa using hc)
      rw [readsName_cons hstep, readsName_body_iff]
      simp [hc]
    · have hstep : nameAutomaton.step .start c = none := if_neg (by simpa using hc)
      have hno : ¬ ReadsName .start (c :: cs) := Automaton.not_acceptsFrom_of_stuck hstep
      simp [hno, hc]

theorem nameAutomaton_recognizes : nameAutomaton.Recognizes IsName := ⟨rfl, accepts_name_iff⟩

end Names

end Token
end MiniCheck
