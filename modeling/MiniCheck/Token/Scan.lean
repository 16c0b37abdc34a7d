import MiniCheck.Automaton
import MiniCheck.Text.Alphabetic
import MiniCheck.Token.Basic
import MiniCheck.Trivia

/-!
# Reading tokens

Tokens are cut from the glyphs that are neither blank nor commented out, so a
token may be spread over several lines and `int x` is read as `intx`. At each
place a number is tried first, then the marks and keywords, then a name; a
keyword is cut off the front of a longer run of letters. A number must not
run into a letter.

A text that cannot be read is left standing at the token that failed: reading
on from there fails again in the same way.
-/

namespace MiniCheck
namespace Token

inductive ScanError
  | unexpected (char : Char) (location : Location)
  | badNumber (text : String) (location : Location)
deriving DecidableEq, Repr

def ScanError.message : ScanError → String
  | unexpected c p => s!"Lexer error at {p}: unexpected character '{c}'"
  | badNumber t p => s!"Lexer error at {p}: invalid numeric literal '{t}'"

inductive NumberState
  | start
  | whole
  | point
  | fraction
deriving DecidableEq, Repr

/-- Digits, or digits, a point and digits. -/
def numberAutomaton : Automaton Char where
  State := NumberState
  start := .start
  step
    | .start, c => if c.isDigit then some .whole else none
    | .whole, c => if c.isDigit then some .whole else if c = '.' then some .point else none
    | .point, c => if c.isDigit then some .fraction else none
    | .fraction, c => if c.isDigit then some .fraction else none
  accepting
    | .whole | .fraction => true
    | .start | .point => false

inductive NameState
  | start
  | body
deriving DecidableEq, Repr

/-- An ASCII letter or underscore, then letters, digits and underscores. -/
def nameAutomaton : Automaton Char where
  State := NameState
  start := .start
  step
    | .start, c => if c.isAlpha || c = '_' then some .body else none
    | .body, c => if c.isAlphanum || c = '_' then some .body else none
  accepting
    | .start => false
    | .body => true

def spells : List Char → List Glyph → Bool
  | [], _ => true
  | _ :: _, [] => false
  | c :: cs, g :: gs => c = g.char && spells cs gs

/-- The first kind whose spelling the glyphs begin with, and its length. -/
def speltKind (gs : List Glyph) : Option (Kind × Nat) :=
  Kind.spelt.findSome? fun k =>
    match k.spelling? with
    | some s => if spells s.toList gs then some (k, s.length) else none
    | none => none

/-- Whether a number that is followed by `c` is refused. -/
def clashes (c : Char) : Bool := Text.isAlphabetic c || c = '_'

/-- The kind of the token at the front of `g :: gs`, and how many glyphs it takes. -/
def leading (g : Glyph) (gs : List Glyph) : Except ScanError (Kind × Nat) :=
  match (numberAutomaton.comap Glyph.char).longest (g :: gs) with
  | some n =>
    match ((g :: gs).drop n).head? with
    | some h =>
      if clashes h.char then
        .error (.badNumber (Glyph.spelling ((g :: gs).take (n + 1))) g.location)
      else .ok (.number, n)
    | none => .ok (.number, n)
  | none =>
    match speltKind (g :: gs) with
    | some found => .ok found
    | none =>
      match (nameAutomaton.comap Glyph.char).longest (g :: gs) with
      | some n => .ok (.name, n)
      | none => .error (.unexpected g.char g.location)

/-- Reads all tokens once the first `skip` glyphs, which belong to the token before,
have gone by. What could not be read is given back beside the answer. -/
def scanFrom : Nat → List Glyph → Except ScanError (List Token) × List Glyph
  | _, [] => (.ok [], [])
  | skip + 1, _ :: gs => scanFrom skip gs
  | 0, g :: gs =>
    match leading g gs with
    | .error e => (.error e, g :: gs)
    | .ok (kind, n) =>
      let later := scanFrom (n - 1) gs
      let first : Token := ⟨kind, Glyph.spelling ((g :: gs).take n), g.location⟩
      (later.1.map fun ts => first :: ts, later.2)

def scan (gs : List Glyph) : Except ScanError (List Token) × List Glyph := scanFrom 0 gs

/-- The glyphs that the tokens of a text are made of. -/
def material (text : String) : List Glyph := Trivia.visible (Glyph.locate text)

/-- The tokens of a text. -/
def ofText (text : String) : Except ScanError (List Token) := (scan (material text)).1

theorem scanFrom_eq (n : Nat) (gs : List Glyph) : scanFrom n gs = scan (gs.drop n) := by
  induction gs generalizing n with
  | nil => cases n <;> rfl
  | cons g gs ih =>
    cases n with
    | zero => rfl
    | succ n => simpa [scanFrom] using ih n

@[simp] theorem scan_nil : scan [] = (.ok [], []) := rfl

theorem scan_of_error {g : Glyph} {gs : List Glyph} {e : ScanError} (h : leading g gs = .error e) :
    scan (g :: gs) = (.error e, g :: gs) := by
  simp [scan, scanFrom, h]

theorem scan_of_ok {g : Glyph} {gs : List Glyph} {k : Kind} {n : Nat}
    (h : leading g gs = .ok (k, n)) :
    scan (g :: gs) =
      (((scan (gs.drop (n - 1))).1.map fun ts =>
          ⟨k, Glyph.spelling ((g :: gs).take n), g.location⟩ :: ts),
        (scan (gs.drop (n - 1))).2) := by
  change scanFrom 0 (g :: gs) = _
  simp only [scanFrom, h]
  rw [scanFrom_eq]

theorem length_of_spells {cs : List Char} {gs : List Glyph} (h : spells cs gs = true) :
    cs.length ≤ gs.length := by
  induction cs generalizing gs with
  | nil => simp
  | cons c cs ih =>
    cases gs with
    | nil => simp [spells] at h
    | cons g gs =>
      simp only [spells, Bool.and_eq_true] at h
      simpa using ih h.2

theorem speltKind_eq_some {gs : List Glyph} {k : Kind} {n : Nat} (h : speltKind gs = some (k, n)) :
    ∃ s, k.spelling? = some s ∧ s.length = n ∧ spells s.toList gs = true := by
  obtain ⟨l, _, hl⟩ := List.exists_of_findSome?_eq_some h
  split at hl
  · rename_i s hs
    split at hl
    · rename_i hsp
      simp only [Option.some.injEq, Prod.mk.injEq] at hl
      obtain ⟨rfl, rfl⟩ := hl
      exact ⟨s, hs, rfl, hsp⟩
    · simp at hl
  · simp at hl

/-- A token takes at least one glyph and no more than there are. -/
theorem leading_length {g : Glyph} {gs : List Glyph} {k : Kind} {n : Nat}
    (h : leading g gs = .ok (k, n)) : 0 < n ∧ n ≤ gs.length + 1 := by
  unfold leading at h
  split at h
  · rename_i m hm
    have bounds := Automaton.longest_pos _ hm
    split at h
    · split at h <;> simp only [Except.ok.injEq, Prod.mk.injEq, reduceCtorEq] at h
      exact h.2 ▸ bounds
    · simp only [Except.ok.injEq, Prod.mk.injEq] at h
      exact h.2 ▸ bounds
  · split at h
    · rename_i found hf
      simp only [Except.ok.injEq] at h
      subst h
      obtain ⟨s, hs, rfl, hsp⟩ := speltKind_eq_some hf
      refine ⟨?_, by simpa [String.length_toList] using length_of_spells hsp⟩
      cases k <;> simp only [Kind.spelling?, Option.some.injEq, reduceCtorEq] at hs <;>
        exact hs ▸ by decide
    · split at h
      · rename_i m hm
        simp only [Except.ok.injEq, Prod.mk.injEq] at h
        exact h.2 ▸ Automaton.longest_pos _ hm
      · simp at h

end Token
end MiniCheck
