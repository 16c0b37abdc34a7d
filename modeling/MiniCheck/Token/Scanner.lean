import MiniCheck.Token.Scan

/-!
# Scanning with a position

A scanner keeps all glyphs of a text and counts how many of them its tokens have taken. It can be
asked for tokens again after any outcome, and goes on where it stopped.

The rules are those of `leading`. Each sort of token looks for its own end and moves the position
itself, a number only after it has been checked.
-/

namespace MiniCheck

namespace Automaton

variable {Symbol : Type} (A : Automaton Symbol)

/-- Reads on from a state that is reached behind `n` symbols until the automaton gets stuck.
`best` is the end of the last beginning that was accepted on the way. -/
def lastAccepted : A.State → Nat → Option Nat → List Symbol → Option Nat
  | _, _, best, [] => best
  | s, n, best, x :: xs =>
    match A.step s x with
    | none => best
    | some t => lastAccepted t (n + 1) (if A.accepting t then some (n + 1) else best) xs

theorem lastAccepted_eq (s : A.State) (n : Nat) (best : Option Nat) (word : List Symbol) :
    A.lastAccepted s n best word = ((A.longestFrom s word).map fun k => n + k).or best := by
  induction word generalizing s n best with
  | nil => rfl
  | cons x xs ih =>
    simp only [lastAccepted, longestFrom]
    cases A.step s x with
    | none => rfl
    | some t =>
      simp only [ih t]
      cases A.longestFrom t xs with
      | none => cases A.accepting t <;> rfl
      | some k =>
        simp only [Option.map_some, Option.some_or]
        congr 1
        omega

end Automaton

namespace Token

theorem Kind.length_pos_of_spelling {k : Kind} {w : String} (h : k.spelling? = some w) :
    0 < w.length := by
  cases k <;> simp only [spelling?, Option.some.injEq, reduceCtorEq] at h <;> exact h ▸ by decide

/-- Where a token that cannot be read begins. -/
def ScanError.location : ScanError → Location
  | unexpected _ p | badNumber _ p => p

/-- What was read of a token that cannot be read. -/
def ScanError.text : ScanError → String
  | unexpected c _ => String.singleton c
  | badNumber t _ => t

structure Scanner where
  glyphs : List Glyph
  /-- How many glyphs have been taken. -/
  position : Nat
deriving DecidableEq, Repr

namespace Scanner

def ofText (text : String) : Scanner := ⟨material text, 0⟩

variable (s : Scanner)

/-- The glyphs that no token has taken. -/
def unread : List Glyph := s.glyphs.drop s.position

def movedTo (position : Nat) : Scanner := { s with position }

/-- The text from the position to `stop`. -/
def slice (stop : Nat) : String := Glyph.spelling (s.unread.take (stop - s.position))

/-- Where the longest beginning ends that the automaton accepts. -/
def longestMatch (A : Automaton Char) : Option Nat :=
  let B := A.comap Glyph.char
  B.lastAccepted B.start s.position none s.unread

/-- The number that ends at `stop`, unless it runs into a letter. -/
def number (p : Location) (stop : Nat) : Except ScanError Token × Scanner :=
  match s.glyphs[stop]? with
  | none => (.ok ⟨.number, s.slice stop, p⟩, s.movedTo stop)
  | some g =>
    if clashes g.char then (.error (.badNumber (s.slice (stop + 1)) p), s)
    else (.ok ⟨.number, s.slice stop, p⟩, s.movedTo stop)

/-- The kind among `ks` whose spelling comes next. -/
def mark? (ks : List Kind) : Option Kind :=
  ks.find? fun k => k.spelling?.any fun w => spells w.toList s.unread

/-- The keyword that a word begins with. -/
def keyword? (word : String) : Option (Kind × String) :=
  Kind.keywords.findSome? fun k =>
    (k.spelling?.filter fun w => w.toList.isPrefixOf word.toList).map fun w => (k, w)

/-- The name that ends at `stop`, or the keyword at the front of it. -/
def word (p : Location) (stop : Nat) : Token × Scanner :=
  match keyword? (s.slice stop) with
  | some (k, w) => (⟨k, w, p⟩, s.movedTo (s.position + w.length))
  | none => (⟨.name, s.slice stop, p⟩, s.movedTo stop)

/-- Reads the token at the position. -/
def token (h : s.position < s.glyphs.length) : Except ScanError Token × Scanner :=
  let g := s.glyphs[s.position]
  match s.longestMatch numberAutomaton with
  | some stop => s.number g.location stop
  | none =>
    match s.mark? Kind.pairs with
    | some k => (.ok ⟨k, s.slice (s.position + 2), g.location⟩, s.movedTo (s.position + 2))
    | none =>
      match s.mark? Kind.singles with
      | some k => (.ok ⟨k, String.singleton g.char, g.location⟩, s.movedTo (s.position + 1))
      | none =>
        match s.longestMatch nameAutomaton with
        | some stop =>
          let read := s.word g.location stop
          (.ok read.1, read.2)
        | none => (.error (.unexpected g.char g.location), s)

theorem longestMatch_eq (A : Automaton Char) :
    s.longestMatch A =
      (A.longest (s.unread.map Glyph.char)).map fun n => s.position + n := by
  rw [← A.longest_comap Glyph.char]
  unfold longestMatch
  rw [Automaton.lastAccepted_eq, Option.or_none]
  rfl

theorem lt_of_longestMatch {A : Automaton Char} {stop : Nat} (h : s.longestMatch A = some stop) :
    s.position < stop := by
  rw [longestMatch_eq] at h
  obtain ⟨n, hn, rfl⟩ := Option.map_eq_some_iff.mp h
  have hpos := (Automaton.longest_pos _ hn).1
  omega

theorem keyword?_eq_some {word : String} {k : Kind} {w : String}
    (h : keyword? word = some (k, w)) :
    k ∈ Kind.keywords ∧ k.spelling? = some w ∧ w.toList <+: word.toList := by
  obtain ⟨l, hl, h⟩ := List.exists_of_findSome?_eq_some h
  obtain ⟨v, hv, h⟩ := Option.map_eq_some_iff.mp h
  obtain ⟨rfl, rfl⟩ := Prod.mk.inj h
  obtain ⟨hspelling, hbegins⟩ := Option.filter_eq_some_iff.mp hv
  exact ⟨hl, hspelling, List.isPrefixOf_iff_prefix.mp hbegins⟩

variable {s}

/-- A token moves the position on, and nothing else. -/
theorem moves_of_token {h : s.position < s.glyphs.length} {t : Token} {later : Scanner}
    (ht : s.token h = (.ok t, later)) :
    later.glyphs = s.glyphs ∧ s.position < later.position := by
  unfold token at ht
  split at ht
  · rename_i stop hstop
    have hlt := s.lt_of_longestMatch hstop
    unfold number at ht
    split at ht
    · cases ht
      exact ⟨rfl, hlt⟩
    · split at ht <;> cases ht
      exact ⟨rfl, hlt⟩
  · split at ht
    · cases ht
      exact ⟨rfl, Nat.lt_add_of_pos_right (by decide)⟩
    · split at ht
      · cases ht
        exact ⟨rfl, Nat.lt_succ_self _⟩
      · split at ht
        · rename_i stop hstop
          cases ht
          unfold word
          split
          · rename_i k w hkeyword
            obtain ⟨_, hspelling, _⟩ := keyword?_eq_some hkeyword
            exact ⟨rfl, Nat.lt_add_of_pos_right (Kind.length_pos_of_spelling hspelling)⟩
          · exact ⟨rfl, s.lt_of_longestMatch hstop⟩
        · cases ht

/-- Reads all tokens from the position on. Where one cannot be read, those before it are lost and
the position is left in front of it. -/
def tokenize (s : Scanner) : Except ScanError (List Token) × Scanner :=
  if h : s.position < s.glyphs.length then
    match ht : s.token h with
    | (.error e, later) => (.error e, later)
    | (.ok t, later) =>
      have := moves_of_token ht
      let rest := later.tokenize
      (rest.1.map fun ts => t :: ts, rest.2)
  else (.ok [], s)
termination_by s.glyphs.length - s.position
decreasing_by
  obtain ⟨hglyphs, _⟩ := this
  rw [hglyphs]
  omega

/-- The answer to the next call. -/
def answer (s : Scanner) : Except ScanError (List Token) := s.tokenize.1

/-- The scanner behind the next call. -/
def next (s : Scanner) : Scanner := s.tokenize.2

end Scanner
end Token
end MiniCheck
