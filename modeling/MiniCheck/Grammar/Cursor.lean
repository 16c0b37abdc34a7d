import MiniCheck.Grammar.Mismatch
import MiniCheck.Tree.Basic

/-!
# Reading a list of tokens

A cursor holds the tokens that are still unread and the number that the next
expression gets. A parser either fails or answers, and in both cases leaves the
cursor where it stopped, so that reading can go on from there.
-/

namespace MiniCheck
namespace Grammar

open Token (Kind)

structure Cursor where
  rest : List Token
  nextId : Nat
  /-- Where the last token of all ends, which is where a missing token is reported. -/
  finish : Location
deriving DecidableEq, Repr

namespace Cursor

def ofTokens (ts : List Token) : Cursor where
  rest := ts
  nextId := 0
  finish := (ts.getLast?.map Token.finish).getD Location.first

variable (c : Cursor)

/-- The kind of the next token, `eof` if there is none. -/
def kind : Kind := (c.rest.head?.map Token.kind).getD .eof

def lexeme : String := (c.rest.head?.map Token.lexeme).getD ""

def location : Location := (c.rest.head?.map Token.location).getD c.finish

def advance : Cursor := { c with rest := c.rest.tail }

/-- The report that the next token is none of `expected`. -/
def mismatch (expected : List Kind) (context : String) : Mismatch :=
  ⟨expected, c.kind, c.lexeme, context, c.location⟩

end Cursor

abbrev Parser := EStateM Mismatch Cursor

namespace Parser

def peek : Parser Kind := fun c => .ok c.kind c

def here : Parser Location := fun c => .ok c.location c

def remaining : Parser (List Token) := fun c => .ok c.rest c

def fail {α : Type} (expected : List Kind) (context : String) : Parser α :=
  fun c => .error (c.mismatch expected context) c

/-- Passes over the next token, whatever it is. -/
def skip : Parser Unit := fun c => .ok () c.advance

/-- Passes over the next token if it is of kind `k`, and tells whether it was. -/
def accept (k : Kind) : Parser Bool := fun c =>
  if c.kind = k then .ok true c.advance else .ok false c

def expect (k : Kind) (context : String) : Parser Token := fun c =>
  match c.rest with
  | t :: ts => if t.kind = k then .ok t { c with rest := ts } else .error (c.mismatch [k] context) c
  | [] => .error (c.mismatch [k] context) c

/-- The mark of a new expression that points at `p`. -/
def fresh (p : Location) : Parser Mark := fun c =>
  .ok ⟨c.nextId, p⟩ { c with nextId := c.nextId + 1 }

@[simp] theorem peek_apply (c : Cursor) : peek c = .ok c.kind c := rfl

@[simp] theorem here_apply (c : Cursor) : here c = .ok c.location c := rfl

@[simp] theorem remaining_apply (c : Cursor) : remaining c = .ok c.rest c := rfl

@[simp] theorem fail_apply {α : Type} (expected : List Kind) (context : String) (c : Cursor) :
    (fail expected context : Parser α) c = .error (c.mismatch expected context) c := rfl

@[simp] theorem skip_apply (c : Cursor) : skip c = .ok () c.advance := rfl

@[simp] theorem fresh_apply (p : Location) (c : Cursor) :
    fresh p c = .ok ⟨c.nextId, p⟩ { c with nextId := c.nextId + 1 } := rfl

@[simp] theorem pure_apply {α : Type} (a : α) (c : Cursor) : (pure a : Parser α) c = .ok a c := rfl

theorem bind_apply {α β : Type} (x : Parser α) (f : α → Parser β) (c : Cursor) :
    (x >>= f) c =
      match x c with
      | .ok a d => f a d
      | .error m d => .error m d := by
  change EStateM.bind x f c = _
  unfold EStateM.bind
  cases x c <;> rfl

theorem expect_eq_ok_iff {k : Kind} {context : String} {c d : Cursor} {t : Token} :
    expect k context c = .ok t d ↔
      c.rest = t :: d.rest ∧ t.kind = k ∧ d = { c with rest := d.rest } := by
  unfold expect
  cases hc : c.rest with
  | nil => simp
  | cons s ss =>
    by_cases hk : s.kind = k
    · simp only [hk, ↓reduceIte, EStateM.Result.ok.injEq, List.cons.injEq]
      constructor
      · rintro ⟨rfl, rfl⟩
        exact ⟨⟨rfl, rfl⟩, hk, rfl⟩
      · rintro ⟨⟨rfl, hss⟩, _, hd⟩
        exact ⟨rfl, by rw [hd, hss]⟩
    · simp only [hk, ↓reduceIte, reduceCtorEq, List.cons.injEq, false_iff]
      rintro ⟨⟨rfl, _⟩, hk', _⟩
      exact hk hk'

/-- One or more items with commas between them. Each comma uses up a token of the
bound, so the tokens that are unread at the start never run out first. -/
def separated {α : Type} (item : Parser α) : List Token → Parser (List α)
  | [] => return [← item]
  | _ :: bound => do
    let a ← item
    if ← accept .comma then return a :: (← separated item bound)
    else return [a]

end Parser
end Grammar
end MiniCheck
