import Mathlib.Order.Bounds.Basic
import MiniCheck.Proofs.Token.Lexemes
import MiniCheck.Proofs.Token.Repeating

/-!
# Where matches end

A match is found in one pass that reads until the automaton gets stuck and keeps the last end that
was accepted on the way. That end is the greatest one of all, however far the pass went on behind
it: `12.` and `12.x` begin with the number `12`. For the two automata of the language this says
which numbers and names are found without mentioning any states.
-/

namespace MiniCheck

namespace Automaton

variable {Symbol : Type} {A : Automaton Symbol} {s : A.State}
  {read front more rest word : List Symbol}

/-! ## How far an automaton reads -/

theorem run_append (s : A.State) (front rest : List Symbol) :
    A.run s (front ++ rest) = (A.run s front).bind fun t => A.run t rest := by
  induction front generalizing s with
  | nil => rfl
  | cons x xs ih =>
    simp only [List.cons_append, run]
    cases A.step s x with
    | none => rfl
    | some t => exact ih t

theorem run_cons_of_step {s t : A.State} {x : Symbol} {xs : List Symbol}
    (h : A.step s x = some t) : A.run s (x :: xs) = A.run t xs := by
  rw [run, h, Option.bind_some]

/-- From `s` the automaton takes in `read` and gets stuck in front of `rest`, unless nothing is
left there. -/
def StopsFrom (A : Automaton Symbol) (s : A.State) (read rest : List Symbol) : Prop :=
  ∃ t, A.run s read = some t ∧ ∀ x ∈ rest.head?, A.step t x = none

theorem exists_stopsFrom (s : A.State) (word : List Symbol) :
    ∃ read rest, word = read ++ rest ∧ A.StopsFrom s read rest := by
  induction word generalizing s with
  | nil => exact ⟨[], [], rfl, s, rfl, fun x hx => nomatch hx⟩
  | cons x xs ih =>
    cases hstep : A.step s x with
    | none =>
      refine ⟨[], x :: xs, rfl, s, rfl, fun y hy => ?_⟩
      cases hy
      exact hstep
    | some t =>
      obtain ⟨read, rest, rfl, u, hrun, hstuck⟩ := ih t
      exact ⟨x :: read, rest, rfl, u, (run_cons_of_step hstep).trans hrun, hstuck⟩

/-- Nothing is accepted that is not read. -/
theorem StopsFrom.length_le (h : A.StopsFrom s read rest) (hword : word <+: read ++ rest)
    (haccepts : A.AcceptsFrom s word) : word.length ≤ read.length := by
  by_contra hlength
  obtain ⟨x, xs, rfl, rest', rfl⟩ := exists_beyond hword (Nat.lt_of_not_le hlength)
  obtain ⟨t, hrun, hstuck⟩ := h
  obtain ⟨u, hrun', _⟩ := haccepts
  rw [run_append, hrun, Option.bind_some, run, hstuck x rfl] at hrun'
  cases hrun'

/-- The automaton accepts `front`, reads on through `more` without accepting again, and stops in
front of `rest`. -/
structure RunsPast (A : Automaton Symbol) (front more rest : List Symbol) : Prop where
  ne_nil : front ≠ []
  accepts : A.Accepts front
  rejects : ∀ tail, tail ≠ [] → tail <+: more → ¬ A.Accepts (front ++ tail)
  stops : A.StopsFrom A.start (front ++ more) rest

theorem RunsPast.length_le (h : A.RunsPast front more rest) (hword : word <+: front ++ more ++ rest)
    (haccepts : A.Accepts word) : word.length ≤ front.length := by
  have hread : word <+: front ++ more :=
    List.prefix_of_prefix_length_le hword (List.prefix_append _ _)
      (h.stops.length_le hword haccepts)
  by_contra hlength
  obtain ⟨x, xs, rfl, htail⟩ := exists_beyond hread (Nat.lt_of_not_le hlength)
  exact h.rejects (x :: xs) (List.cons_ne_nil x xs) htail haccepts

theorem RunsPast.longest_eq (h : A.RunsPast front more rest) :
    A.longest (front ++ more ++ rest) = some front.length := by
  have hfront : front <+: front ++ more ++ rest := by
    rw [List.append_assoc]
    exact List.prefix_append _ _
  cases hlongest : A.longest (front ++ more ++ rest) with
  | none =>
    obtain ⟨x, xs, rfl⟩ := List.exists_cons_of_ne_nil h.ne_nil
    exact absurd h.accepts (not_acceptsFrom_of_longestFrom hlongest hfront)
  | some n =>
    have hle : front.length ≤ n := length_le_of_longestFrom hlongest hfront h.accepts
    have hge := h.length_le (List.take_prefix n _) (acceptsFrom_take_of_longestFrom hlongest)
    rw [List.length_take_of_le (A.longest_pos hlongest).2] at hge
    exact congrArg some (Nat.le_antisymm hge hle)

/-- The length that is found is that of the last beginning which the run accepts before it
stops. -/
theorem longest_eq_some_iff {n : Nat} :
    A.longest word = some n ↔
      ∃ front more rest, A.RunsPast front more rest ∧ word = front ++ more ++ rest ∧
        n = front.length := by
  constructor
  · intro h
    obtain ⟨read, rest, rfl, hstops⟩ := exists_stopsFrom A.start word
    obtain ⟨hpos, hbound⟩ := A.longest_pos h
    have haccepts : A.Accepts ((read ++ rest).take n) := acceptsFrom_take_of_longestFrom h
    have hle := hstops.length_le (List.take_prefix _ _) haccepts
    rw [List.length_take_of_le hbound] at hle
    -- The run stops only behind what it accepts, so the beginning is cut from what is read.
    obtain ⟨front, more, rfl, rfl⟩ : ∃ front more, read = front ++ more ∧ n = front.length :=
      ⟨read.take n, read.drop n, (List.take_append_drop n read).symm,
        (List.length_take_of_le hle).symm⟩
    rw [List.append_assoc, List.take_left] at haccepts
    refine ⟨front, more, rest, ⟨List.length_pos_iff.mp hpos, haccepts, ?_, hstops⟩, rfl, rfl⟩
    intro tail hne htail hlonger
    have hbegins : front ++ tail <+: front ++ more ++ rest :=
      ((List.prefix_append_right_inj front).mpr htail).trans (List.prefix_append _ rest)
    have hlength := length_le_of_longestFrom h hbegins hlonger
    rw [List.length_append] at hlength
    have hlong := List.length_pos_iff.mpr hne
    omega
  · rintro ⟨front, more, rest, h, rfl, rfl⟩
    exact h.longest_eq

end Automaton

namespace Token

/-! ## Numbers and names -/

section Numbers

variable {ds rest : List Char}

theorem run_whole (h : ∀ d ∈ ds, d.isDigit = true) :
    numberAutomaton.run NumberState.whole ds = some NumberState.whole := by
  induction ds with
  | nil => rfl
  | cons d ds ih =>
    obtain ⟨hd, hds⟩ := List.forall_mem_cons.mp h
    have hstep : numberAutomaton.step .whole d = some .whole := if_pos hd
    exact (Automaton.run_cons_of_step hstep).trans (ih hds)

theorem run_digits (hne : ds ≠ []) (h : ∀ d ∈ ds, d.isDigit = true) :
    numberAutomaton.run numberAutomaton.start ds = some NumberState.whole := by
  obtain ⟨d, ds, rfl⟩ := List.exists_cons_of_ne_nil hne
  obtain ⟨hd, hds⟩ := List.forall_mem_cons.mp h
  have hstep : numberAutomaton.step numberAutomaton.start d = some .whole := if_pos hd
  exact (Automaton.run_cons_of_step hstep).trans (run_whole hds)

/-- A point without digits behind it is read, but it is no part of the number. -/
theorem runsPast_point (hne : ds ≠ []) (h : ∀ d ∈ ds, d.isDigit = true)
    (hrest : ∀ c ∈ rest.head?, ¬ c.isDigit = true) :
    numberAutomaton.RunsPast ds ['.'] rest := by
  have hpoint : numberAutomaton.run numberAutomaton.start (ds ++ ['.']) = some .point := by
    rw [Automaton.run_append, run_digits hne h]
    rfl
  refine ⟨hne, ⟨.whole, run_digits hne h, rfl⟩, ?_, .point, hpoint, fun c hc => if_neg (hrest c hc)⟩
  rintro tail htail hbegins ⟨t, hrun, haccepting⟩
  obtain rfl : tail = ['.'] := by
    obtain ⟨c, cs, rfl⟩ := List.exists_cons_of_ne_nil htail
    obtain ⟨rfl, hcs⟩ := List.cons_prefix_cons.mp hbegins
    rw [List.prefix_nil.mp hcs]
  rw [hpoint] at hrun
  cases hrun
  cases haccepting

end Numbers

section Names

variable {front rest : List Char}

/-- A name is the longest one if it takes in all that could belong to it. -/
theorem longest_name_iff :
    Longest IsName front rest ↔ IsName front ∧ ∀ c ∈ rest.head?, ¬ IsWordChar c := by
  constructor
  · intro h
    refine ⟨h.holds, fun c hc hword => ?_⟩
    obtain ⟨more, rfl⟩ := List.head?_eq_some_iff.mp hc
    exact h.not_append (h.holds.append_wordChar hword)
  · rintro ⟨hname, hrest⟩
    exact .of_head hname fun c hc word hword hmem => hrest c hc (hword.mem c hmem)

theorem noBeginning_name_iff :
    NoBeginning IsName rest ↔ ∀ c ∈ rest.head?, ¬ (c.isAlpha = true ∨ c = '_') := by
  constructor
  · intro hno c hc hfirst
    obtain ⟨more, rfl⟩ := List.head?_eq_some_iff.mp hc
    refine hno [c] ⟨more, rfl⟩ (.intro hfirst fun d hd => ?_)
    exact absurd hd List.not_mem_nil
  · rintro hfirst word hword hname
    cases hname with
    | @intro c cs h hrest =>
      obtain ⟨more, rfl⟩ := hword
      exact hfirst c rfl h

end Names

namespace Scanner

variable {s : Scanner} {P : List Char → Prop} {stop : Nat} {word : List Char}

/-! ## Ends of words -/

/-- A word with the property stands between the position and `stop`. -/
structure Ends (s : Scanner) (P : List Char → Prop) (stop : Nat) : Prop where
  after : s.position < stop
  within : stop ≤ s.glyphs.length
  word : P (chars (s.glyphs.extract s.position stop))

theorem chars_extract_append (hle : s.position ≤ stop) :
    chars (s.glyphs.extract s.position stop) ++ chars (s.glyphs.drop stop) = chars s.unread := by
  have hdrop : s.glyphs.drop stop = s.unread.drop (stop - s.position) := by
    rw [unread, List.drop_drop, Nat.add_sub_of_le hle]
  rw [List.extract_eq_take_drop, hdrop, ← chars_append]
  exact congrArg chars (List.take_append_drop _ _)

theorem Ends.begins (h : s.Ends P stop) :
    chars (s.glyphs.extract s.position stop) <+: chars s.unread :=
  ⟨_, chars_extract_append (Nat.le_of_lt h.after)⟩

theorem Ends.add_length (h : s.Ends P stop) :
    s.position + (chars (s.glyphs.extract s.position stop)).length = stop := by
  obtain ⟨hafter, hwithin, _⟩ := h
  rw [chars, List.length_map, List.extract_eq_take_drop, List.length_take, List.length_drop]
  omega

theorem Ends.ne_nil (h : s.Ends P stop) : chars (s.glyphs.extract s.position stop) ≠ [] := by
  intro hnil
  have hlength := h.add_length
  rw [hnil, List.length_nil, Nat.add_zero] at hlength
  exact absurd hlength (Nat.ne_of_lt h.after)

theorem ends_of_begins (hne : word ≠ []) (hword : word <+: chars s.unread) (h : P word) :
    s.Ends P (s.position + word.length) := by
  have hpos := List.length_pos_iff.mpr hne
  have hle := hword.length_le
  rw [chars, List.length_map, unread, List.length_drop] at hle
  refine ⟨by omega, by omega, ?_⟩
  rw [List.extract_eq_take_drop, Nat.add_sub_cancel_left, chars_take]
  rwa [List.prefix_iff_eq_take.mp hword] at h

theorem isGreatest_ends_iff :
    IsGreatest {stop | s.Ends P stop} stop ↔
      s.Ends P stop ∧
        Longest P (chars (s.glyphs.extract s.position stop)) (chars (s.glyphs.drop stop)) := by
  constructor
  · rintro ⟨hends, hgreatest⟩
    refine ⟨hends, hends.word, fun {word} hword h => ?_⟩
    rw [chars_extract_append (Nat.le_of_lt hends.after)] at hword
    by_cases hne : word = []
    · rw [hne]
      exact Nat.zero_le _
    · have hle := hgreatest (ends_of_begins hne hword h)
      have hlength := hends.add_length
      omega
  · rintro ⟨hends, hlongest⟩
    refine ⟨hends, fun last hlast => ?_⟩
    have hbegins := Ends.begins hlast
    rw [← chars_extract_append (Nat.le_of_lt hends.after)] at hbegins
    have hle := hlongest.greatest hbegins hlast.word
    have hlength := hends.add_length
    have hlength' := Ends.add_length hlast
    omega

theorem forall_not_ends_iff (hnil : ¬ P []) :
    (∀ stop, ¬ s.Ends P stop) ↔ NoBeginning P (chars s.unread) := by
  constructor
  · rintro hno word hword h
    exact hno _ (ends_of_begins (fun heq => hnil (heq ▸ h)) hword h)
  · intro hno stop hends
    exact hno _ hends.begins hends.word

/-! ## Ends of matches -/

/-- What was found is the greatest end of a word with the property, and nothing if there is no
such word. -/
structure Finds (s : Scanner) (P : List Char → Prop) (found : Option Nat) : Prop where
  eq_some_iff (stop : Nat) : found = some stop ↔ IsGreatest {stop | s.Ends P stop} stop
  eq_none_iff : found = none ↔ ∀ stop, ¬ s.Ends P stop

theorem Finds.of_found {found : Option Nat}
    (hsome : ∀ stop, found = some stop → IsGreatest {stop | s.Ends P stop} stop)
    (hnone : found = none → ∀ stop, ¬ s.Ends P stop) : s.Finds P found := by
  cases found with
  | none =>
    have hno := hnone rfl
    exact ⟨fun stop => ⟨nofun, fun h => absurd h.1 (hno stop)⟩, fun _ => hno, fun _ => rfl⟩
  | some last =>
    have hlast := hsome last rfl
    refine ⟨fun stop => ⟨?_, fun h => congrArg some (hlast.unique h)⟩, nofun, ?_⟩
    · rintro ⟨⟩
      exact hlast
    · intro hno
      exact absurd hlast.1 (hno last)

theorem longestMatch_eq_some_iff {A : Automaton Char} :
    s.longestMatch A = some stop ↔
      ∃ front more rest, A.RunsPast front more rest ∧ chars s.unread = front ++ more ++ rest ∧
        stop = s.position + front.length := by
  rw [longestMatch_eq, Option.map_eq_some_iff]
  constructor
  · rintro ⟨n, hn, rfl⟩
    obtain ⟨front, more, rest, h, hunread, rfl⟩ := Automaton.longest_eq_some_iff.mp hn
    exact ⟨front, more, rest, h, hunread, rfl⟩
  · rintro ⟨front, more, rest, h, hunread, rfl⟩
    exact ⟨_, Automaton.longest_eq_some_iff.mpr ⟨front, more, rest, h, hunread, rfl⟩, rfl⟩

theorem finds_longestMatch (A : Automaton Char) : s.Finds A.Accepts (s.longestMatch A) := by
  refine .of_found ?_ ?_
  · intro stop hstop
    obtain ⟨front, more, rest, h, hunread, rfl⟩ := longestMatch_eq_some_iff.mp hstop
    have hfront : front <+: chars s.unread := ⟨more ++ rest, by rw [hunread, List.append_assoc]⟩
    refine ⟨ends_of_begins h.ne_nil hfront h.accepts, fun last hlast => ?_⟩
    have hbegins := Ends.begins hlast
    rw [hunread] at hbegins
    have hle := h.length_le hbegins hlast.word
    have hlength := Ends.add_length hlast
    omega
  · intro hnone stop hends
    have hbegins := hends.begins
    have haccepts := hends.word
    -- A start state may accept, but what stands in front of an end is not empty.
    obtain ⟨c, cs, hcons⟩ := List.exists_cons_of_ne_nil hends.ne_nil
    rw [hcons] at hbegins haccepts
    exact Automaton.not_acceptsFrom_of_longestFrom (longest_of_longestMatch_none hnone) hbegins
      haccepts

theorem finds_number : s.Finds IsNumber (s.longestMatch numberAutomaton) := by
  have haccepts : numberAutomaton.Accepts = IsNumber := funext fun _ => propext accepts_number_iff
  exact haccepts ▸ finds_longestMatch numberAutomaton

theorem finds_name : s.Finds IsName (s.longestMatch nameAutomaton) := by
  have haccepts : nameAutomaton.Accepts = IsName := funext fun _ => propext accepts_name_iff
  exact haccepts ▸ finds_longestMatch nameAutomaton

/-- What holds of the character at an index, if there is one. -/
theorem forall_head_drop (Q : Char → Prop) (n : Nat) :
    (∀ c ∈ (chars (s.glyphs.drop n)).head?, Q c) ↔ ∀ g ∈ s.glyphs[n]?, Q g.char := by
  rw [chars, List.head?_map, List.head?_drop]
  cases s.glyphs[n]? <;> simp

theorem longestMatch_name_iff :
    s.longestMatch nameAutomaton = some stop ↔
      s.Ends IsName stop ∧ ∀ g ∈ s.glyphs[stop]?, ¬ IsWordChar g.char := by
  rw [finds_name.eq_some_iff, isGreatest_ends_iff, longest_name_iff,
    forall_head_drop fun c => ¬ IsWordChar c]
  constructor
  · rintro ⟨hends, _, hnext⟩
    exact ⟨hends, hnext⟩
  · rintro ⟨hends, hnext⟩
    exact ⟨hends, hends.word, hnext⟩

theorem longestMatch_name_eq_none_iff :
    s.longestMatch nameAutomaton = none ↔
      ∀ g ∈ s.glyphs[s.position]?, ¬ (g.char.isAlpha = true ∨ g.char = '_') := by
  have hnil : ¬ IsName [] := nofun
  rw [finds_name.eq_none_iff, forall_not_ends_iff hnil, noBeginning_name_iff, unread,
    forall_head_drop fun c => ¬ (c.isAlpha = true ∨ c = '_')]

/-- Whatever the automaton and wherever the position, the match ends at the greatest end that is
accepted, and there is none only if nothing but the empty word is. That is the last end which the
run accepts before it stops, and the run may have gone on behind it. So the longest numbers are
found, without a point that no digit follows, and names with all that could belong to them. -/
theorem longestMatch_greatest (s : Scanner) :
    (∀ A : Automaton Char, s.Finds A.Accepts (s.longestMatch A) ∧
      ∀ stop, s.longestMatch A = some stop ↔ ∃ front more rest, A.RunsPast front more rest ∧
        chars s.unread = front ++ more ++ rest ∧ stop = s.position + front.length) ∧
      s.Finds IsNumber (s.longestMatch numberAutomaton) ∧
      (∀ ds rest, ds ≠ [] → (∀ d ∈ ds, d.isDigit = true) → (∀ c ∈ rest.head?, ¬ c.isDigit = true) →
        chars s.unread = ds ++ '.' :: rest →
        s.longestMatch numberAutomaton = some (s.position + ds.length)) ∧
      (∀ stop, s.longestMatch nameAutomaton = some stop ↔
        s.Ends IsName stop ∧ ∀ g ∈ s.glyphs[stop]?, ¬ IsWordChar g.char) ∧
      (s.longestMatch nameAutomaton = none ↔
        ∀ g ∈ s.glyphs[s.position]?, ¬ (g.char.isAlpha = true ∨ g.char = '_')) := by
  refine ⟨fun A => ⟨finds_longestMatch A, fun _ => longestMatch_eq_some_iff⟩, finds_number, ?_,
    fun _ => longestMatch_name_iff, longestMatch_name_eq_none_iff⟩
  intro ds rest hne hdigits hrest hunread
  apply longestMatch_eq_some_iff.mpr
  refine ⟨ds, ['.'], rest, runsPast_point hne hdigits hrest, ?_, rfl⟩
  rw [hunread, List.append_assoc]
  rfl

/-- The automaton of numbers leaves its accepting states at each point, and comes back to one only
behind the first point of the last text. -/
theorem longestMatch_greatest_points :
    let s := (ofText "; 12.x").movedTo 1
    let t := ofText "12."
    let u := ofText "1.25.x"
    s.longestMatch numberAutomaton = some 3 ∧ t.longestMatch numberAutomaton = some 2 ∧
      IsGreatest {stop | s.Ends numberAutomaton.Accepts stop} 3 ∧
      IsGreatest {stop | u.Ends IsNumber stop} 4 ∧
      (∀ stop, ¬ u.Ends nameAutomaton.Accepts stop) ∧
      ∃ front more rest, numberAutomaton.RunsPast front more rest ∧
        chars u.unread = front ++ more ++ rest ∧ 4 = u.position + front.length := by
  intro s t u
  obtain ⟨hmatch, _, hpoint, _, _⟩ := longestMatch_greatest s
  obtain ⟨_, _, hpoint', _, _⟩ := longestMatch_greatest t
  obtain ⟨hmatch', hnumber, _, _, _⟩ := longestMatch_greatest u
  have hdigits : ∀ d ∈ ['1', '2'], d.isDigit = true := by
    rw [List.forall_mem_cons, List.forall_mem_singleton]
    exact ⟨rfl, rfl⟩
  have hletter : ∀ c ∈ ['x'].head?, ¬ c.isDigit = true := by
    rintro c ⟨⟩
    exact nofun
  have hs : s.longestMatch numberAutomaton = some 3 :=
    hpoint ['1', '2'] ['x'] (List.cons_ne_nil _ _) hdigits hletter (by rfl)
  have ht : t.longestMatch numberAutomaton = some 2 :=
    hpoint' ['1', '2'] [] (List.cons_ne_nil _ _) hdigits nofun (by rfl)
  have hu : u.longestMatch numberAutomaton = some 4 := by rfl
  have hnone : u.longestMatch nameAutomaton = none := by rfl
  exact ⟨hs, ht, ((hmatch numberAutomaton).1.eq_some_iff 3).mp hs, (hnumber.eq_some_iff 4).mp hu,
    (hmatch' nameAutomaton).1.eq_none_iff.mp hnone, ((hmatch' numberAutomaton).2 4).mp hu⟩

end Scanner
end Token
end MiniCheck
