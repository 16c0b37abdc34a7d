import MiniCheck.Grammar.Cursor
import MiniCheck.Proofs.Grammar.ExprDerivation

/-!
# Single steps of a reader

What the primitive readers do at a cursor that is given by its unread tokens, its
next number and the place of a missing token, and how a step that answered can be
taken apart.
-/

namespace MiniCheck
namespace Grammar

open Token (Kind)

/-- The kind of the first of some tokens, `eof` if there is none. -/
def headKind (ts : List Token) : Kind := (ts.head?.map Token.kind).getD .eof

@[simp] theorem headKind_cons (t : Token) (ts : List Token) : headKind (t :: ts) = t.kind := rfl

@[simp] theorem Cursor.kind_mk (ts : List Token) (i : Nat) (f : Location) :
    Cursor.kind ⟨ts, i, f⟩ = headKind ts := rfl

@[simp] theorem Cursor.advance_cons (t : Token) (ts : List Token) (i : Nat) (f : Location) :
    Cursor.advance ⟨t :: ts, i, f⟩ = ⟨ts, i, f⟩ := rfl

@[simp] theorem Cursor.location_cons (t : Token) (ts : List Token) (i : Nat) (f : Location) :
    Cursor.location ⟨t :: ts, i, f⟩ = t.location := rfl

theorem exists_of_headKind {ts : List Token} {k : Kind} (h : headKind ts = k) (hk : k ≠ .eof) :
    ∃ (t : Token.Of k) (r : List Token), ts = t.val :: r := by
  cases ts with
  | nil => exact absurd h.symm hk
  | cons t r => exact ⟨⟨t, h⟩, r, rfl⟩

namespace Parser

variable {α β : Type} {ts : List Token} {i : Nat} {f : Location}

theorem bind_eq_ok_iff {x : Parser α} {g : α → Parser β} {c d : Cursor} {b : β} :
    (x >>= g) c = .ok b d ↔ ∃ a e, x c = .ok a e ∧ g a e = .ok b d := by
  rw [bind_apply]
  cases x c with
  | ok a e => simp [and_assoc]
  | error m e => simp

theorem bind_of_ok {x : Parser α} {g : α → Parser β} {c d : Cursor} {a : α}
    (h : x c = .ok a d) : (x >>= g) c = g a d := by
  rw [bind_apply, h]

theorem bind_eq_error_iff {x : Parser α} {g : α → Parser β} {c d : Cursor} {m : Mismatch} :
    (x >>= g) c = .error m d ↔
      x c = .error m d ∨ ∃ a e, x c = .ok a e ∧ g a e = .error m d := by
  rw [bind_apply]
  cases x c with
  | ok a e => simp [and_assoc]
  | error m e => simp

theorem bind_congr_of_ok {x : Parser α} {g g' : α → Parser β} {c : Cursor}
    (h : ∀ a d, x c = .ok a d → g a d = g' a d) : (x >>= g) c = (x >>= g') c := by
  rw [bind_apply, bind_apply]
  cases hx : x c with
  | ok a d => exact h a d hx
  | error m d => rfl

theorem map_apply (g : α → β) (x : Parser α) (c : Cursor) :
    (g <$> x) c =
      match x c with
      | .ok a d => .ok (g a) d
      | .error m d => .error m d := by
  change EStateM.map g x c = _
  unfold EStateM.map
  cases x c <;> rfl

@[simp] theorem expect_of (k : Kind) (context : String) (t : Token.Of k) (r : List Token) :
    expect k context ⟨t.val :: r, i, f⟩ = .ok t.val ⟨r, i, f⟩ := by
  simp [expect]

theorem expect_of_ok {k : Kind} {context : String} {a : Token} {d : Cursor}
    (h : expect k context ⟨ts, i, f⟩ = .ok a d) :
    ∃ (t : Token.Of k) (r : List Token), ts = t.val :: r ∧ a = t.val ∧ d = ⟨r, i, f⟩ := by
  obtain ⟨hr, hk, hd⟩ := expect_eq_ok_iff.mp h
  exact ⟨⟨a, hk⟩, d.rest, hr, rfl, hd⟩

@[simp] theorem accept_of (k : Kind) (t : Token.Of k) (r : List Token) :
    accept k ⟨t.val :: r, i, f⟩ = .ok true ⟨r, i, f⟩ := by
  simp [accept]

theorem accept_of_ne {k : Kind} (h : headKind ts ≠ k) :
    accept k ⟨ts, i, f⟩ = .ok false ⟨ts, i, f⟩ := by
  simp [accept, h]

/-- A token of the wanted kind comes next and is passed over, or none does. -/
theorem accept_cases (k : Kind) (hk : k ≠ .eof) (ts : List Token) (i : Nat) (f : Location) :
    (∃ (t : Token.Of k) (r : List Token), ts = t.val :: r ∧
      accept k ⟨ts, i, f⟩ = .ok true ⟨r, i, f⟩) ∨
    headKind ts ≠ k ∧ accept k ⟨ts, i, f⟩ = .ok false ⟨ts, i, f⟩ := by
  by_cases h : headKind ts = k
  · obtain ⟨t, r, rfl⟩ := exists_of_headKind h hk
    exact .inl ⟨t, r, rfl, accept_of k t r⟩
  · exact .inr ⟨h, accept_of_ne h⟩

/-- What `x` reads behind a token of kind `k`, or nothing where no such token comes next. -/
def optionally (k : Kind) (x : Parser α) : Parser (Option α) := do
  if ← accept k then some <$> x else pure none

theorem optionally_of_ne {k : Kind} (x : Parser α) (h : headKind ts ≠ k) :
    optionally k x ⟨ts, i, f⟩ = .ok none ⟨ts, i, f⟩ := by
  simp only [optionally, bind_of_ok (accept_of_ne h)]
  rfl

theorem optionally_of {k : Kind} (x : Parser α) (t : Token.Of k) {r : List Token} {a : α}
    {d : Cursor} (h : x ⟨r, i, f⟩ = .ok a d) :
    optionally k x ⟨t.val :: r, i, f⟩ = .ok (some a) d := by
  simp only [optionally, bind_of_ok (accept_of k t r), ↓reduceIte, map_apply, h]

theorem optionally_of_ok {k : Kind} (hk : k ≠ .eof) {x : Parser α} {o : Option α} {d : Cursor}
    (h : optionally k x ⟨ts, i, f⟩ = .ok o d) :
    (∃ (t : Token.Of k) (r : List Token) (a : α), ts = t.val :: r ∧ o = some a ∧
      x ⟨r, i, f⟩ = .ok a d) ∨
    headKind ts ≠ k ∧ o = none ∧ d = ⟨ts, i, f⟩ := by
  simp only [optionally] at h
  rcases accept_cases k hk ts i f with ⟨t, r, rfl, hc⟩ | ⟨hne, hc⟩
  · rw [bind_of_ok hc] at h
    simp only [↓reduceIte, map_apply] at h
    cases hx : x ⟨r, i, f⟩ with
    | ok a c =>
      rw [hx] at h
      cases h
      exact .inl ⟨t, r, a, rfl, rfl, hx⟩
    | error m c =>
      rw [hx] at h
      cases h
  · rw [bind_of_ok hc] at h
    cases h
    exact .inr ⟨hne, rfl, rfl⟩

theorem optionally_of_error {k : Kind} (hk : k ≠ .eof) {x : Parser α} {m : Mismatch} {d : Cursor}
    (h : optionally k x ⟨ts, i, f⟩ = .error m d) :
    ∃ (t : Token.Of k) (r : List Token), ts = t.val :: r ∧ x ⟨r, i, f⟩ = .error m d := by
  simp only [optionally] at h
  rcases accept_cases k hk ts i f with ⟨t, r, rfl, hc⟩ | ⟨_, hc⟩
  · rw [bind_of_ok hc] at h
    simp only [↓reduceIte, map_apply] at h
    cases hx : x ⟨r, i, f⟩ with
    | ok a c =>
      rw [hx] at h
      cases h
    | error m' c =>
      rw [hx] at h
      cases h
      exact ⟨t, r, rfl, hx⟩
  · rw [bind_of_ok hc] at h
    cases h

/-- An option that is read is the same as two ways to go on. -/
theorem optionally_bind (k : Kind) (x : Parser α) (g : Option α → Parser β) :
    optionally k x >>= g = (do
      if ← accept k then
        let a ← some <$> x
        g a
      else
        let a ← pure none
        g a) := by
  funext c
  simp only [optionally, bind_apply]
  cases accept k c with
  | ok b d => cases b <;> simp [bind_apply]
  | error m d => rfl

end Parser

/-- A reader that answers exactly where a derivation that it `Admits` before the tokens
that follow can be taken off the front, and answers with its tree. -/
def Reads {δ α : Type} (tokens : δ → List Token) (size : δ → Nat) (tree : δ → Nat → α)
    (Admits : δ → List Token → Prop) (x : Parser α) : Prop :=
  ∀ (ts : List Token) (i : Nat) (f : Location) (a : α) (d : Cursor),
    x ⟨ts, i, f⟩ = .ok a d ↔
      ∃ D r, ts = tokens D ++ r ∧ Admits D r ∧ a = tree D i ∧ d = ⟨r, i + size D, f⟩

namespace Reads

variable {δ α : Type} {tokens : δ → List Token} {size : δ → Nat} {tree : δ → Nat → α}
  {Admits : δ → List Token → Prop} {x : Parser α}

theorem sound (h : Reads tokens size tree Admits x) {ts : List Token} {i : Nat} {f : Location}
    {a : α} {d : Cursor} (hx : x ⟨ts, i, f⟩ = .ok a d) :
    ∃ D r, ts = tokens D ++ r ∧ Admits D r ∧ a = tree D i ∧ d = ⟨r, i + size D, f⟩ :=
  (h ts i f a d).mp hx

theorem complete (h : Reads tokens size tree Admits x) {D : δ} {r : List Token}
    (hD : Admits D r) (i : Nat) (f : Location) :
    x ⟨tokens D ++ r, i, f⟩ = .ok (tree D i) ⟨r, i + size D, f⟩ :=
  (h _ i f _ _).mpr ⟨D, r, rfl, hD, rfl, rfl⟩

end Reads
end Grammar
end MiniCheck
