import MiniCheck.Grammar.Program
import MiniCheck.Proofs.Grammar.Step
import MiniCheck.Proofs.Token.Relabelling

/-!
# Readers never look at places or numbers

Tokens at other places are read like those at their own, with an answer or with an error,
and so are tokens whose expressions are numbered from elsewhere on.
-/

namespace MiniCheck

namespace Relabelling

/-- The next number stays the next number. -/
def Counts (r : Relabelling) : Prop := ∀ i, r.id (i + 1) = r.id i + 1

theorem counts_unplaced : unplaced.Counts := fun _ => rfl

end Relabelling

namespace Grammar

open Token (Kind)
open Grammar.Parser

section Instances

variable {α : Type}

instance : Labelled Mismatch := ⟨fun r m => { m with location := r.place m.location }⟩

instance : Labelled Cursor := ⟨fun r c => ⟨relabel r c.rest, r.id c.nextId, r.place c.finish⟩⟩

/-- The outcome of a reader. -/
instance [Labelled α] : Labelled (EStateM.Result Mismatch Cursor α) where
  relabel
    | r, .ok a c => .ok (relabel r a) (relabel r c)
    | r, .error m c => .error (relabel r m) (relabel r c)

end Instances

section Cursor

variable (r : Relabelling) (c : Cursor)

theorem kind_relabel : (relabel r c).kind = c.kind := by
  obtain ⟨rest, i, f⟩ := c
  cases rest with
  | nil => rfl
  | cons t ts => rfl

theorem lexeme_relabel : (relabel r c).lexeme = c.lexeme := by
  obtain ⟨rest, i, f⟩ := c
  cases rest with
  | nil => rfl
  | cons t ts => rfl

theorem cursor_location_relabel : (relabel r c).location = r.place c.location := by
  obtain ⟨rest, i, f⟩ := c
  cases rest with
  | nil => rfl
  | cons t ts => rfl

theorem advance_relabel : (relabel r c).advance = relabel r c.advance := by
  obtain ⟨rest, i, f⟩ := c
  cases rest with
  | nil => rfl
  | cons t ts => rfl

theorem mismatch_relabel (expected : List Kind) (context : String) :
    (relabel r c).mismatch expected context = relabel r (c.mismatch expected context) := by
  unfold Cursor.mismatch
  rw [kind_relabel, lexeme_relabel, cursor_location_relabel]
  rfl

end Cursor

/-- From relabelled tokens `y` reads what `x` reads from the tokens themselves, relabelled. -/
def Mirrors (r : Relabelling) {α : Type} [Labelled α] (x y : Parser α) : Prop :=
  ∀ c, y (relabel r c) = relabel r (x c)

namespace Mirrors

variable {r : Relabelling} {α β : Type} [Labelled α] [Labelled β]

theorem pure (a : α) : Mirrors r (Pure.pure a) (Pure.pure (relabel r a)) := fun _ => rfl

theorem pure_of_eq {a b : α} (h : relabel r a = b) : Mirrors r (Pure.pure a) (Pure.pure b) :=
  h ▸ pure a

theorem peek : Mirrors r peek peek := by
  intro c
  rw [peek_apply, peek_apply, kind_relabel]
  rfl

theorem here : Mirrors r here here := by
  intro c
  rw [here_apply, here_apply, cursor_location_relabel]
  rfl

theorem remaining : Mirrors r remaining remaining := fun _ => rfl

theorem skip : Mirrors r skip skip := by
  intro c
  rw [skip_apply, skip_apply, advance_relabel]
  rfl

theorem fail (expected : List Kind) (context : String) :
    Mirrors r (fail expected context : Parser α) (Parser.fail expected context) := by
  intro c
  rw [fail_apply, fail_apply, mismatch_relabel]
  rfl

theorem accept (k : Kind) : Mirrors r (accept k) (Parser.accept k) := by
  intro c
  unfold Parser.accept
  rw [kind_relabel, advance_relabel]
  split
  · rfl
  · rfl

theorem expect (k : Kind) (context : String) :
    Mirrors r (expect k context) (Parser.expect k context) := by
  rintro ⟨rest, i, f⟩
  have hmismatch := mismatch_relabel r ⟨rest, i, f⟩ [k] context
  cases rest with
  | nil => rfl
  | cons t ts =>
    by_cases h : t.kind = k
    · have hkind : (relabel r t).kind = k := h
      have hrest : (relabel r (⟨t :: ts, i, f⟩ : Cursor)).rest = relabel r t :: relabel r ts := rfl
      simp only [Parser.expect, hrest, h, hkind, ↓reduceIte]
      rfl
    · have hkind : ¬ (relabel r t).kind = k := h
      have hrest : (relabel r (⟨t :: ts, i, f⟩ : Cursor)).rest = relabel r t :: relabel r ts := rfl
      simp only [Parser.expect, hrest, h, hkind, ↓reduceIte, hmismatch]
      rfl

theorem fresh (hr : r.Counts) (p : Location) : Mirrors r (fresh p) (Parser.fresh (r.place p)) := by
  intro c
  have hid : (relabel r c).nextId + 1 = r.id (c.nextId + 1) := (hr c.nextId).symm
  rw [fresh_apply, fresh_apply, hid]
  rfl

theorem bind {x y : Parser α} {g h : α → Parser β} (hx : Mirrors r x y)
    (hg : ∀ a, Mirrors r (g a) (h (relabel r a))) : Mirrors r (x >>= g) (y >>= h) := by
  intro c
  rw [bind_apply, bind_apply, hx c]
  cases x c with
  | ok a d => exact hg a d
  | error m d => rfl

theorem map {x y : Parser α} {g h : α → β} (hx : Mirrors r x y)
    (hg : ∀ a, h (relabel r a) = relabel r (g a)) : Mirrors r (g <$> x) (h <$> y) := by
  intro c
  rw [map_apply, map_apply, hx c]
  cases x c with
  | ok a d => exact congrArg (fun b => EStateM.Result.ok b (relabel r d)) (hg a)
  | error m d => rfl

theorem ite {p : Prop} [Decidable p] {x x' y y' : Parser α} (hx : Mirrors r x x')
    (hy : Mirrors r y y') : Mirrors r (if p then x else y) (if p then x' else y') := by
  split
  · exact hx
  · exact hy

theorem separated {item item' : Parser α} (h : Mirrors r item item') (bound : List Token) :
    Mirrors r (separated item bound) (Parser.separated item' (relabel r bound)) := by
  induction bound with
  | nil => exact h.bind fun a => .pure [a]
  | cons b bound ih =>
    exact h.bind fun a => (accept .comma).bind fun _ =>
      .ite (ih.bind fun as => .pure (a :: as)) (.pure [a])

/-! ## Expressions -/

theorem arguments {expr expr' : Parser Expr} (h : Mirrors r expr expr') :
    Mirrors r (arguments expr) (Grammar.arguments expr') :=
  peek.bind fun _ => .ite (.pure []) (remaining.bind fun ts => h.separated ts)

section Expressions

variable (hr : r.Counts)
include hr

theorem chain {n : Nat} {operand operand' : Parser Expr} (h : Mirrors r operand operand')
    (bound : List Token) (left : Expr) :
    Mirrors r (chain n operand bound left)
      (Grammar.chain n operand' (relabel r bound) (relabel r left)) := by
  induction bound generalizing left with
  | nil => exact .pure left
  | cons b bound ih =>
    refine peek.bind fun k => ?_
    have hk : relabel r k = k := rfl
    rw [hk]
    cases BinaryOp.atLevel? n k with
    | none => exact .pure left
    | some op =>
      exact here.bind fun p => skip.bind fun _ => h.bind fun right => (fresh hr p).bind fun m =>
        ih (.binary op left right m)

theorem operation {operand operand' : Parser Expr} (h : Mirrors r operand operand') (n : Nat) :
    Mirrors r (operation operand n) (Grammar.operation operand' n) := by
  induction n with
  | zero => exact h
  | succ n ih => exact ih.bind fun left => remaining.bind fun ts => chain hr ih ts left

theorem named {expr expr' : Parser Expr} (h : Mirrors r expr expr') :
    Mirrors r (named expr) (Grammar.named expr') := by
  refine (expect .name _).bind fun name => (accept .equal).bind fun _ => .ite ?_ ?_
  · exact h.bind fun value => (fresh hr _).bind fun m =>
      .pure (Expr.assign name.lexeme value m)
  · refine (accept .leftParen).bind fun _ => .ite ?_ ?_
    · exact h.arguments.bind fun args => (expect .rightParen _).bind fun _ =>
        (fresh hr _).bind fun m => .pure_of_eq (relabel_call r name.lexeme args m)
    · exact (fresh hr _).bind fun m => .pure (Expr.var name.lexeme m)

theorem operand (depth : Nat) : Mirrors r (operand depth) (Grammar.operand depth) := by
  induction depth with
  | zero => exact .fail [] _
  | succ depth ih =>
    have hexpr := operation hr ih BinaryOp.topLevel
    have hsigned : ∀ op, Mirrors r (signed op (Grammar.operand depth))
        (signed op (Grammar.operand depth)) := fun op =>
      here.bind fun p => skip.bind fun _ => ih.bind fun e => (fresh hr p).bind fun m =>
        .pure (Expr.unary op e m)
    refine peek.bind fun k => ?_
    cases k
    case bang => exact hsigned .not
    case minus => exact hsigned .neg
    case leftParen =>
      exact skip.bind fun _ => hexpr.bind fun e => (expect .rightParen _).bind fun _ => .pure e
    case number =>
      exact (expect .number _).bind fun t => (fresh hr _).bind fun m =>
        .pure (Expr.number t.lexeme m)
    case name => exact named hr hexpr
    all_goals exact .fail _ _

theorem expression (depth : Nat) : Mirrors r (expression depth) (Grammar.expression depth) :=
  operation hr (operand hr depth) BinaryOp.topLevel

end Expressions

end Mirrors
end Grammar
end MiniCheck
