import MiniCheck.Proofs.Grammar.ProgramReading

/-!
# Readers look no further than the next token

Where a reader stops, with an answer or with an error, it has seen the tokens it passed
over and the one that comes next. Any other tokens behind that one would have led to the
same outcome.

The loops are bounded by a list of tokens. Any two bounds that do not run out before the
tokens do lead to the same outcome too.
-/

namespace MiniCheck
namespace Grammar

open Token (Kind)
open Grammar.Parser

/-- Where a reader has stopped. -/
def stopped {α : Type} : EStateM.Result Mismatch Cursor α → Cursor
  | .ok _ d | .error _ d => d

/-- The same outcome, found at another cursor. -/
def movedTo {α : Type} (d : Cursor) :
    EStateM.Result Mismatch Cursor α → EStateM.Result Mismatch Cursor α
  | .ok a _ => .ok a d
  | .error m _ => .error m d

@[simp] theorem stopped_ok {α : Type} (a : α) (d : Cursor) :
    stopped (.ok a d : EStateM.Result Mismatch Cursor α) = d := rfl

@[simp] theorem stopped_error {α : Type} (m : Mismatch) (d : Cursor) :
    stopped (.error m d : EStateM.Result Mismatch Cursor α) = d := rfl

@[simp] theorem movedTo_ok {α : Type} (a : α) (c d : Cursor) :
    movedTo d (.ok a c : EStateM.Result Mismatch Cursor α) = .ok a d := rfl

@[simp] theorem movedTo_error {α : Type} (m : Mismatch) (c d : Cursor) :
    movedTo d (.error m c : EStateM.Result Mismatch Cursor α) = .error m d := rfl

/-- At `c` a reader passes over `u`, and does so with the same outcome before all tokens
that begin like those it has left, if it has left any. -/
def LocalAt {α : Type} (x : Parser α) (c : Cursor) (u : List Token) : Prop :=
  c.rest = u ++ (stopped (x c)).rest ∧ (stopped (x c)).finish = c.finish ∧
    ∀ r f, (stopped (x c)).rest ≠ [] → r.head? = (stopped (x c)).rest.head? →
      x ⟨u ++ r, c.nextId, f⟩ = movedTo ⟨r, (stopped (x c)).nextId, f⟩ (x c)

/-- A reader that looks no further than the token at which it stops. -/
def Local {α : Type} (x : Parser α) : Prop := ∀ c, ∃ u, LocalAt x c u

namespace Local

variable {α β : Type}

theorem length_le {x : Parser α} (hx : Local x) {c d : Cursor} {a : α} (h : x c = .ok a d) :
    d.rest.length ≤ c.rest.length := by
  obtain ⟨u, hrest, _⟩ := hx c
  rw [h] at hrest
  rw [hrest]
  simp

/-- A reader that moves nowhere and looks at nothing but the next token. -/
theorem of_stay {x : Parser α} (hstop : ∀ c, stopped (x c) = c)
    (hnext : ∀ t r r' i f f', x ⟨t :: r', i, f'⟩ = movedTo ⟨t :: r', i, f'⟩ (x ⟨t :: r, i, f⟩)) :
    Local x := by
  intro c
  refine ⟨[], by rw [hstop]; rfl, by rw [hstop], ?_⟩
  intro r f hne hhead
  rw [hstop] at hne hhead ⊢
  obtain ⟨rest, i, f₀⟩ := c
  cases rest with
  | nil => exact absurd rfl hne
  | cons t ts =>
    cases r with
    | nil => cases hhead
    | cons s r =>
      obtain rfl : s = t := Option.some.inj hhead
      exact hnext s ts r i f₀ f

theorem pure (a : α) : Local (pure a : Parser α) :=
  of_stay (fun _ => rfl) (fun _ _ _ _ _ _ => rfl)

theorem peek : Local Parser.peek :=
  of_stay (fun _ => rfl) (fun _ _ _ _ _ _ => rfl)

theorem here : Local Parser.here :=
  of_stay (fun _ => rfl) (fun _ _ _ _ _ _ => rfl)

theorem fail (expected : List Kind) (context : String) :
    Local (fail expected context : Parser α) :=
  of_stay (fun _ => rfl) (fun _ _ _ _ _ _ => rfl)

/-- A reader that passes over the next token, whose outcome depends on that token alone. -/
theorem of_advance {x : Parser α} {t : Token} {r : List Token} {i : Nat} {f : Location} {a : α}
    (h : ∀ r f, x ⟨t :: r, i, f⟩ = .ok a ⟨r, i, f⟩) : LocalAt x ⟨t :: r, i, f⟩ [t] := by
  refine ⟨by rw [h]; rfl, by rw [h]; rfl, ?_⟩
  intro r' f' _ _
  rw [h]
  exact h r' f'

/-- A reader that stays where it is, whose outcome depends on the next token alone. -/
theorem at_stay {x : Parser α} {c : Cursor} (hstop : stopped (x c) = c)
    (hnext : ∀ t r, c.rest = t :: r → ∀ r' f, x ⟨t :: r', c.nextId, f⟩ =
      movedTo ⟨t :: r', c.nextId, f⟩ (x c)) : LocalAt x c [] := by
  refine ⟨by rw [hstop]; rfl, by rw [hstop], ?_⟩
  intro r f hne hhead
  rw [hstop] at hne hhead ⊢
  cases hrest : c.rest with
  | nil => exact absurd hrest hne
  | cons t ts =>
    cases r with
    | nil =>
      rw [hrest] at hhead
      cases hhead
    | cons s r =>
      rw [hrest] at hhead
      obtain rfl : s = t := Option.some.inj hhead
      exact hnext s ts hrest r f

theorem skip : Local Parser.skip := by
  rintro ⟨rest, i, f⟩
  cases rest with
  | nil => exact ⟨[], rfl, rfl, fun _ _ hne => absurd rfl hne⟩
  | cons t r => exact ⟨[t], of_advance fun _ _ => rfl⟩

theorem accept (k : Kind) : Local (accept k) := by
  rintro ⟨rest, i, f⟩
  cases rest with
  | nil =>
    have hstop : (stopped (Parser.accept k ⟨[], i, f⟩)) = ⟨[], i, f⟩ := by
      unfold Parser.accept
      split <;> rfl
    refine ⟨[], by rw [hstop]; rfl, by rw [hstop], ?_⟩
    intro r f' hne
    rw [hstop] at hne
    exact absurd rfl hne
  | cons t r =>
    by_cases hk : t.kind = k
    · exact ⟨[t], of_advance fun r f => accept_of k ⟨t, hk⟩ r⟩
    · have hfalse : ∀ r f, Parser.accept k ⟨t :: r, i, f⟩ = .ok false ⟨t :: r, i, f⟩ :=
        fun r f => accept_of_ne hk
      refine ⟨[], at_stay (by rw [hfalse]; rfl) ?_⟩
      rintro s ts hs r' f'
      obtain ⟨rfl, rfl⟩ := List.cons.inj hs
      rw [hfalse, hfalse]
      rfl

theorem expect (k : Kind) (context : String) : Local (expect k context) := by
  rintro ⟨rest, i, f⟩
  cases rest with
  | nil => exact ⟨[], rfl, rfl, fun _ _ hne => absurd rfl hne⟩
  | cons t r =>
    by_cases hk : t.kind = k
    · exact ⟨[t], of_advance fun r f => expect_of k context ⟨t, hk⟩ r⟩
    · have hfail : ∀ r f, Parser.expect k context ⟨t :: r, i, f⟩ =
          .error ⟨[k], t.kind, t.lexeme, context, t.location⟩ ⟨t :: r, i, f⟩ := by
        intro r f
        simp only [Parser.expect, hk, ↓reduceIte]
        rfl
      refine ⟨[], at_stay (by rw [hfail]; rfl) ?_⟩
      rintro s ts hs r' f'
      obtain ⟨rfl, rfl⟩ := List.cons.inj hs
      rw [hfail, hfail]
      rfl

theorem fresh (p : Location) : Local (fresh p) := by
  intro c
  exact ⟨[], rfl, rfl, fun _ _ _ _ => rfl⟩

theorem bind {x : Parser α} {g : α → Parser β} (hx : Local x) (hg : ∀ a, Local (g a)) :
    Local (x >>= g) := by
  intro c
  obtain ⟨u, hrest, hfinish, hmove⟩ := hx c
  cases hrun : x c with
  | error m d =>
    have hbind : (x >>= g) c = .error m d := by rw [bind_apply, hrun]
    rw [hrun] at hrest hfinish hmove
    refine ⟨u, by rw [hbind]; exact hrest, by rw [hbind]; exact hfinish, ?_⟩
    intro r f hne hhead
    rw [hbind] at hne hhead ⊢
    rw [bind_apply, hmove r f hne hhead]
    rfl
  | ok a d =>
    have hbind : (x >>= g) c = g a d := by rw [bind_apply, hrun]
    rw [hrun] at hrest hfinish hmove
    obtain ⟨v, hrest', hfinish', hmove'⟩ := hg a d
    refine ⟨u ++ v, ?_, ?_, ?_⟩
    · rw [hbind, hrest, stopped_ok, hrest', List.append_assoc]
    · rw [hbind, hfinish', ← hfinish, stopped_ok]
    · intro r f hne hhead
      rw [hbind] at hne hhead ⊢
      have hne' : d.rest ≠ [] := by
        rw [hrest']
        exact List.append_ne_nil_of_right_ne_nil v hne
      -- What is left of the tokens `x` has left begins in the same way.
      have hhead' : (v ++ r).head? = d.rest.head? := by
        rw [hrest', List.head?_append, List.head?_append, hhead]
      rw [List.append_assoc, bind_apply, hmove (v ++ r) f hne' hhead', movedTo_ok, stopped_ok]
      exact hmove' r f hne hhead

theorem map {x : Parser α} (g : α → β) (hx : Local x) : Local (g <$> x) := by
  have heq : g <$> x = x >>= fun a => Pure.pure (g a) := by
    funext c
    rw [map_apply, bind_apply]
    rfl
  rw [heq]
  exact hx.bind fun a => .pure (g a)

theorem ite {p : Prop} [Decidable p] {x y : Parser α} (hx : Local x) (hy : Local y) :
    Local (if p then x else y) := by
  split
  · exact hx
  · exact hy

/-- What depends on the unread tokens only as far as there are any. -/
theorem remaining_bind {g : List Token → Parser α}
    (hg : ∀ r r' : List Token, r.isEmpty = r'.isEmpty → g r = g r') (h : ∀ r, Local (g r)) :
    Local (remaining >>= g) := by
  intro c
  obtain ⟨u, hrest, hfinish, hmove⟩ := h c.rest c
  have hbind : ∀ c, (remaining >>= g) c = g c.rest c := fun c => bind_of_ok (remaining_apply c)
  refine ⟨u, by rw [hbind]; exact hrest, by rw [hbind]; exact hfinish, ?_⟩
  intro r f hne hhead
  rw [hbind c] at hne hhead ⊢
  have hc : c.rest ≠ [] := fun h0 => hne (List.append_eq_nil_iff.mp (hrest.symm.trans h0)).2
  have hr : r ≠ [] := by
    rintro rfl
    exact hne (List.head?_eq_none_iff.mp hhead.symm)
  have hempty : (u ++ r).isEmpty = c.rest.isEmpty := by
    rw [List.isEmpty_eq_false_iff.mpr hc,
      List.isEmpty_eq_false_iff.mpr (List.append_ne_nil_of_right_ne_nil u hr)]
  rw [hbind, hg _ _ hempty]
  exact hmove r f hne hhead

/-- A loop that goes on as long as there are tokens is local if it is so for every bound, and
if no bound makes a difference that is long enough. -/
theorem of_bound {loop : List Token → Parser α} (h : ∀ bound, Local (loop bound))
    (hbound : ∀ bound bound' c, c.rest.length ≤ bound.length → c.rest.length ≤ bound'.length →
      loop bound c = loop bound' c) : Local (remaining >>= loop) := by
  intro c
  have hbind : ∀ c, (remaining >>= loop) c = loop c.rest c := fun c => bind_of_ok (remaining_apply c)
  obtain ⟨u, hrest, hfinish, _⟩ := h c.rest c
  refine ⟨u, by rw [hbind]; exact hrest, by rw [hbind]; exact hfinish, ?_⟩
  intro r f hne hhead
  rw [hbind c] at hne hhead ⊢
  rw [hbind]
  -- Both runs are the same with a bound that is long enough for either.
  have hleft := hbound c.rest (c.rest ++ (u ++ r)) c (Nat.le_refl _) (by simp)
  have hright := hbound (u ++ r) (c.rest ++ (u ++ r)) ⟨u ++ r, c.nextId, f⟩ (Nat.le_refl _)
    (by simp)
  obtain ⟨v, hrest', _, hmove⟩ := h (c.rest ++ (u ++ r)) c
  rw [← hleft] at hrest' hmove
  obtain rfl : v = u := List.append_cancel_right (hrest'.symm.trans hrest)
  rw [hright]
  exact hmove r f hne hhead

theorem optionally {k : Kind} {x : Parser α} (hx : Local x) : Local (optionally k x) :=
  (accept k).bind fun _ => .ite (hx.map some) (.pure none)

theorem separated {item : Parser α} (h : Local item) : ∀ bound, Local (separated item bound)
  | [] => h.bind fun _ => .pure _
  | _ :: bound =>
    h.bind fun _ => (accept .comma).bind fun _ =>
      .ite ((separated h bound).bind fun _ => .pure _) (.pure _)

end Local

section Bounds

variable {α : Type}

theorem separated_bound {item : Parser α} (h : Local item) (bound : List Token) :
    ∀ (bound' : List Token) (c : Cursor), c.rest.length ≤ bound.length →
      c.rest.length ≤ bound'.length → separated item bound c = separated item bound' c := by
  -- Without tokens there is no comma, which is what a bound that is empty says too.
  have hnil : ∀ (b : Token) (bound : List Token) (c : Cursor), c.rest = [] →
      separated item (b :: bound) c = separated item [] c := by
    intro b bound c hc
    simp only [separated]
    apply bind_congr_of_ok
    rintro a ⟨rest, i, f⟩ hrun
    have hle := h.length_le hrun
    rw [hc] at hle
    obtain rfl : rest = [] := List.length_eq_zero_iff.mp (Nat.le_zero.mp hle)
    rw [bind_of_ok (accept_of_ne (by decide))]
    rfl
  induction bound with
  | nil =>
    intro bound' c hb _
    have hc := List.length_eq_zero_iff.mp (Nat.le_zero.mp hb)
    cases bound' with
    | nil => rfl
    | cons b' bound' => exact (hnil b' bound' c hc).symm
  | cons b bound ih =>
    intro bound' c hb hb'
    cases bound' with
    | nil => exact hnil b bound c (List.length_eq_zero_iff.mp (Nat.le_zero.mp hb'))
    | cons b' bound' =>
      simp only [separated]
      apply bind_congr_of_ok
      rintro a ⟨rest, i, f⟩ hrun
      have hle := h.length_le hrun
      simp only [List.length_cons] at hb hb' hle
      rcases accept_cases .comma (by decide) rest i f with ⟨comma, r, rfl, hc⟩ | ⟨_, hc⟩
      · rw [bind_of_ok hc, bind_of_ok hc]
        simp only [List.length_cons] at hle
        have hrest := ih bound' ⟨r, i, f⟩ (by simp only; omega) (by simp only; omega)
        simp only [↓reduceIte, bind_apply, hrest]
      · rw [bind_of_ok hc, bind_of_ok hc]
        rfl

theorem chain_bound {n : Nat} {operand : Parser Expr} (h : Local operand) (bound : List Token) :
    ∀ (bound' : List Token) (left : Expr) (c : Cursor), c.rest.length ≤ bound.length →
      c.rest.length ≤ bound'.length →
        chain n operand bound left c = chain n operand bound' left c := by
  induction bound with
  | nil =>
    rintro bound' left ⟨rest, i, f⟩ hb _
    obtain rfl : rest = [] := List.length_eq_zero_iff.mp (Nat.le_zero.mp hb)
    have hnone : BinaryOp.atLevel? n (headKind []) = none := rfl
    rw [chain_of_none hnone, chain_of_none hnone]
  | cons b bound ih =>
    rintro bound' left ⟨rest, i, f⟩ hb hb'
    cases ho : BinaryOp.atLevel? n (headKind rest) with
    | none => rw [chain_of_none ho, chain_of_none ho]
    | some op =>
      obtain ⟨hk, _⟩ := BinaryOp.atLevel?_eq_some_iff.mp ho
      obtain ⟨t, r, rfl⟩ := exists_of_headKind hk op.sign_ne_eof
      cases bound' with
      | nil => exact absurd hb' (Nat.not_succ_le_zero _)
      | cons b' bound' =>
        have ho' : BinaryOp.atLevel? n t.val.kind = some op := ho
        rw [chain_of_some ho', chain_of_some ho']
        apply bind_congr_of_ok
        rintro right d hrun
        have hle := h.length_le hrun
        simp only [List.length_cons] at hb hb' hle
        rw [bind_of_ok (fresh_apply _ _), bind_of_ok (fresh_apply _ _)]
        exact ih bound' _ _ (by simp only; omega) (by simp only; omega)

theorem declarators_bound {expr : Parser Expr} (h : Local expr) {type : BaseType}
    (bound : List Token) :
    ∀ (bound' : List Token) (name : Token) (c : Cursor), c.rest.length ≤ bound.length →
      c.rest.length ≤ bound'.length →
        declarators expr type bound name c = declarators expr type bound' name c := by
  have hnil : ∀ (b : Token) (bound : List Token) (name : Token) (c : Cursor), c.rest = [] →
      declarators expr type (b :: bound) name c = declarators expr type [] name c := by
    intro b bound name c hc
    rw [declarators_nil, declarators_cons]
    apply bind_congr_of_ok
    rintro init ⟨rest, i, f⟩ hrun
    have hle := h.optionally.length_le hrun
    rw [hc] at hle
    obtain rfl : rest = [] := List.length_eq_zero_iff.mp (Nat.le_zero.mp hle)
    rw [bind_of_ok (accept_of_ne (by decide))]
    rfl
  induction bound with
  | nil =>
    intro bound' name c hb _
    have hc := List.length_eq_zero_iff.mp (Nat.le_zero.mp hb)
    cases bound' with
    | nil => rfl
    | cons b' bound' => exact (hnil b' bound' name c hc).symm
  | cons b bound ih =>
    intro bound' name c hb hb'
    cases bound' with
    | nil => exact hnil b bound name c (List.length_eq_zero_iff.mp (Nat.le_zero.mp hb'))
    | cons b' bound' =>
      rw [declarators_cons, declarators_cons]
      apply bind_congr_of_ok
      rintro init ⟨rest, i, f⟩ hrun
      have hle := h.optionally.length_le hrun
      simp only [List.length_cons] at hb hb' hle
      rcases accept_cases .comma (by decide) rest i f with ⟨comma, r, rfl, hc⟩ | ⟨_, hc⟩
      · rw [bind_of_ok hc, bind_of_ok hc]
        simp only [↓reduceIte]
        apply bind_congr_of_ok
        intro next d hnext
        have hle' := (Local.expect .name "after ','").length_le hnext
        simp only [List.length_cons] at hle hle'
        have hrest := ih bound' next d (by omega) (by omega)
        simp only [bind_apply, hrest]
      · rw [bind_of_ok hc, bind_of_ok hc]
        rfl

/-- A reader that passes over a token whenever it answers. -/
def Advances (x : Parser α) : Prop :=
  ∀ c a d, x c = .ok a d → d.rest.length < c.rest.length

theorem declarations_bound {declaration : Parser (List Stmt)} (h : Advances declaration)
    (bound : List Token) :
    ∀ (bound' : List Token) (c : Cursor), c.rest.length ≤ bound.length →
      c.rest.length ≤ bound'.length →
        declarations declaration bound c = declarations declaration bound' c := by
  induction bound with
  | nil =>
    rintro bound' ⟨rest, i, f⟩ hb _
    obtain rfl : rest = [] := List.length_eq_zero_iff.mp (Nat.le_zero.mp hb)
    have hnot : (headKind []).isType = false := rfl
    rw [declarations_of_not_type hnot, declarations_of_not_type hnot]
  | cons b bound ih =>
    rintro bound' ⟨rest, i, f⟩ hb hb'
    cases htype : (headKind rest).isType with
    | false => rw [declarations_of_not_type htype, declarations_of_not_type htype]
    | true =>
      cases bound' with
      | nil =>
        obtain rfl : rest = [] := List.length_eq_zero_iff.mp (Nat.le_zero.mp hb')
        exact absurd htype (by decide)
      | cons b' bound' =>
        rw [declarations_of_type htype, declarations_of_type htype]
        apply bind_congr_of_ok
        intro declared d hrun
        have hlt := h _ _ _ hrun
        simp only [List.length_cons] at hb hb' hlt
        have hrest := ih bound' d (by omega) (by omega)
        simp only [bind_apply, hrest]

theorem itemsWithin_bound {declaration : Parser (List Stmt)} {statement : Parser Stmt}
    (hdecl : Advances declaration) (hstmt : Advances statement) (bound : List Token) :
    ∀ (bound' : List Token) (c : Cursor), c.rest.length ≤ bound.length →
      c.rest.length ≤ bound'.length →
        itemsWithin declaration statement bound c = itemsWithin declaration statement bound' c := by
  induction bound with
  | nil =>
    rintro bound' ⟨rest, i, f⟩ hb _
    obtain rfl : rest = [] := List.length_eq_zero_iff.mp (Nat.le_zero.mp hb)
    rw [itemsWithin_of_listEnds (.inr rfl), itemsWithin_of_listEnds (.inr rfl)]
  | cons b bound ih =>
    rintro bound' ⟨rest, i, f⟩ hb hb'
    by_cases hend : ListEnds rest
    · rw [itemsWithin_of_listEnds hend, itemsWithin_of_listEnds hend]
    cases bound' with
    | nil => exact absurd (.inr (List.length_eq_zero_iff.mp (Nat.le_zero.mp hb'))) hend
    | cons b' bound' =>
      simp only [List.length_cons] at hb hb'
      cases htype : (headKind rest).isType with
      | true =>
        rw [itemsWithin_of_isType htype, itemsWithin_of_isType htype]
        apply bind_congr_of_ok
        intro declared d hrun
        have hlt := hdecl _ _ _ hrun
        simp only at hlt
        have hrest := ih bound' d (by omega) (by omega)
        simp only [bind_apply, hrest]
      | false =>
        by_cases hk : headKind rest = .semicolon
        · obtain ⟨semicolon, r, rfl⟩ := exists_of_headKind hk (by decide)
          rw [itemsWithin_semicolon, itemsWithin_semicolon]
          simp only [List.length_cons] at hb hb'
          exact ih bound' _ (by simp only; omega) (by simp only; omega)
        · rw [itemsWithin_of_ne hend htype hk, itemsWithin_of_ne hend htype hk]
          apply bind_congr_of_ok
          intro s d hrun
          have hlt := hstmt _ _ _ hrun
          simp only at hlt
          have hrest := ih bound' d (by omega) (by omega)
          simp only [bind_apply, hrest]

end Bounds

end Grammar
end MiniCheck
