import MiniCheck.Proofs.Grammar.ExprReading

/-!
# Where reading an expression gets stuck

When a reader fails, the tokens it has passed over can be continued by a token of any of
the kinds it reports as expected, and further tokens behind it, to something it could
have read. Neither the limit on nesting levels nor whether a derivation is settled plays
a role here.
-/

namespace MiniCheck

/-- Some token of a kind. -/
def Token.sample (k : Token.Kind) : Token.Of k := ⟨⟨k, "", Location.first⟩, rfl⟩

namespace Grammar

open Token (Kind)
open Grammar.Parser

/-- The context of a report that says nothing but that a program is nested too deeply. -/
def TooDeep (context : String) : Prop :=
  context = "expression nested too deeply" ∨ context = "statement nested too deeply" ∨
    context = "function nested too deeply"

/-- What every report says about the cursor at which reading failed. -/
structure Reported (m : Mismatch) (d : Cursor) : Prop where
  eq_mismatch : m = d.mismatch m.expected m.context
  ne_found : ∀ k ∈ m.expected, k ≠ d.kind
  eq_nil_iff : m.expected = [] ↔ TooDeep m.context

/-- The token lists of some derivations. -/
def Yields {δ : Type} (tokens : δ → List Token) (u : List Token) : Prop := ∃ D, tokens D = u

/-- Reading `ts` failed at `d` where every expected token could have been followed up to a
list in `L`. -/
def Stuck (L : List Token → Prop) (ts : List Token) (m : Mismatch) (d : Cursor) : Prop :=
  Reported m d ∧ ∃ u, ts = u ++ d.rest ∧
    ∀ k ∈ m.expected, k ≠ .eof ∧ ∀ t : Token.Of k, ∃ v, L (u ++ t.val :: v)

theorem Stuck.lift {K L : List Token → Prop} {w ts : List Token} {m : Mismatch} {d : Cursor}
    (h : Stuck K ts m d) (hKL : ∀ z, K z → ∃ v, L (w ++ (z ++ v))) : Stuck L (w ++ ts) m d := by
  obtain ⟨hreport, u, rfl, hviable⟩ := h
  refine ⟨hreport, w ++ u, by rw [List.append_assoc], ?_⟩
  intro k hk
  obtain ⟨hne, hcomplete⟩ := hviable k hk
  refine ⟨hne, ?_⟩
  intro t
  obtain ⟨v, hv⟩ := hcomplete t
  obtain ⟨v', hv'⟩ := hKL _ hv
  refine ⟨v ++ v', ?_⟩
  simpa only [List.append_assoc, List.cons_append] using hv'

/-- Every failure of a reader is one where it could have gone on to a list in `L`. -/
def FailsWithin {α : Type} (L : List Token → Prop) (x : Parser α) : Prop :=
  ∀ ts i f m d, x ⟨ts, i, f⟩ = .error m d → Stuck L ts m d

theorem fail_stuck (α : Type) {L : List Token → Prop} {expected : List Kind} {context : String}
    {ts : List Token} {i : Nat} {f : Location} {m : Mismatch} {d : Cursor}
    (hcontext : expected = [] ↔ TooDeep context)
    (hviable : ∀ k ∈ expected, k ≠ headKind ts ∧ k ≠ .eof ∧
      ∀ t : Token.Of k, ∃ v, L (t.val :: v))
    (h : (fail expected context : Parser α) ⟨ts, i, f⟩ = .error m d) : Stuck L ts m d := by
  cases h
  exact ⟨⟨rfl, fun k hk => (hviable k hk).1, hcontext⟩, [], rfl, fun k hk => (hviable k hk).2⟩

theorem expect_stuck {k : Kind} (hk : k ≠ .eof) {context : String} (hcontext : ¬ TooDeep context)
    {ts : List Token} {i : Nat} {f : Location} {m : Mismatch} {d : Cursor}
    (h : expect k context ⟨ts, i, f⟩ = .error m d) :
    Stuck (Yields fun t : Token.Of k => [t.val]) ts m d := by
  have hne : k ≠ headKind ts := by
    intro hhead
    obtain ⟨t, r, rfl⟩ := exists_of_headKind hhead.symm hk
    rw [expect_of] at h
    cases h
  have hfail : expect k context ⟨ts, i, f⟩ =
      .error (Cursor.mismatch ⟨ts, i, f⟩ [k] context) ⟨ts, i, f⟩ := by
    cases ts with
    | nil => rfl
    | cons t r =>
      have hkind : ¬ t.kind = k := fun heq => hne heq.symm
      simp only [expect, hkind, ↓reduceIte]
  rw [hfail] at h
  refine fail_stuck Token (by simp [hcontext]) ?_ h
  intro j hj
  obtain rfl := List.mem_singleton.mp hj
  exact ⟨hne, hk, fun t => ⟨[], t, rfl⟩⟩

/-! ## Operations -/

namespace ExprDerivation

def sample : (n : Nat) → ExprDerivation (.operation n)
  | 0 => number (Token.sample .number)
  | n + 1 => tighter (sample n)

end ExprDerivation

abbrev YieldsExpr (r : ExprRule) : List Token → Prop :=
  Yields fun D : ExprDerivation r => D.tokens

section Operations

variable {n depth : Nat} {x : Parser Expr} {i : Nat} {f : Location} {m : Mismatch} {d : Cursor}

theorem chain_stuck (hread : ReadsOperation n depth x) (hx : FailsWithin (YieldsExpr (.operation n)) x)
    (bound : List Token) (L : ExprDerivation (.operation (n + 1))) (left : Expr) (ts : List Token)
    (i : Nat) (h : chain (n + 1) x bound left ⟨ts, i, f⟩ = .error m d) :
    Stuck (YieldsExpr (.operation (n + 1))) (L.tokens ++ ts) m d := by
  induction bound generalizing L left ts i with
  | nil => cases h
  | cons b bound ih =>
    cases ho : BinaryOp.atLevel? (n + 1) (headKind ts) with
    | none =>
      rw [chain_of_none ho] at h
      cases h
    | some op =>
      obtain ⟨hk, hlevel⟩ := BinaryOp.atLevel?_eq_some_iff.mp ho
      obtain ⟨sign, r, rfl⟩ := exists_of_headKind hk op.sign_ne_eof
      have ho' : BinaryOp.atLevel? (n + 1) sign.val.kind = some op := ho
      rw [chain_of_some ho'] at h
      have happend : L.tokens ++ sign.val :: r = (L.tokens ++ [sign.val]) ++ r := by simp
      rcases bind_eq_error_iff.mp h with h | ⟨right, c, hright, h⟩
      · rw [happend]
        apply (hx _ _ _ _ _ h).lift
        rintro _ ⟨R, rfl⟩
        exact ⟨[], .binary L op hlevel sign R, by simp [ExprDerivation.tokens]⟩
      · obtain ⟨R, s, rfl, _, _, rfl⟩ := hread.sound hright
        rw [bind_of_ok (fresh_apply _ _)] at h
        have hstuck := ih (.binary L op hlevel sign R) _ s _ h
        simpa [ExprDerivation.tokens] using hstuck

theorem operation_stuck (hread : ReadsOperation 0 depth x)
    (hx : FailsWithin (YieldsExpr (.operation 0)) x) :
    ∀ n : Nat, FailsWithin (YieldsExpr (.operation n)) (operation x n)
  | 0 => hx
  | n + 1 => by
    intro ts i f m d h
    have hreadn := reads_operation hread n
    have hxn := operation_stuck hread hx n
    simp only [operation] at h
    rcases bind_eq_error_iff.mp h with h | ⟨left, c, hleft, h⟩
    · refine (hxn _ _ _ _ _ h).lift (w := []) ?_
      rintro _ ⟨D, rfl⟩
      exact ⟨[], .tighter D, by simp [ExprDerivation.tokens]⟩
    · obtain ⟨L, r, rfl, _, _, rfl⟩ := hreadn.sound hleft
      rw [bind_of_ok (remaining_apply _)] at h
      exact chain_stuck hreadn hxn r (.tighter L) left r _ h

end Operations

/-! ## Operands -/

section Operands

variable {depth : Nat} {x : Parser Expr}

theorem separated_stuck (hread : ReadsOperation BinaryOp.topLevel depth x)
    (hx : FailsWithin (YieldsExpr .expression) x) (bound : List Token) :
    FailsWithin (YieldsExpr .arguments) (separated x bound) := by
  induction bound with
  | nil =>
    intro ts i f m d h
    simp only [separated] at h
    rcases bind_eq_error_iff.mp h with h | ⟨e, c, he, h⟩
    · refine (hx _ _ _ _ _ h).lift (w := []) ?_
      rintro _ ⟨D, rfl⟩
      exact ⟨[], .last D, by simp [ExprDerivation.tokens]⟩
    · cases h
  | cons b bound ih =>
    intro ts i f m d h
    simp only [separated] at h
    rcases bind_eq_error_iff.mp h with h | ⟨e, c, he, h⟩
    · refine (hx _ _ _ _ _ h).lift (w := []) ?_
      rintro _ ⟨D, rfl⟩
      exact ⟨[], .last D, by simp [ExprDerivation.tokens]⟩
    · obtain ⟨D, r, rfl, _, _, rfl⟩ := hread.sound he
      rcases accept_cases .comma (by decide) r (i + D.size) f with ⟨comma, s, rfl, hc⟩ | ⟨_, hc⟩
      · rw [bind_of_ok hc] at h
        have happend : D.tokens ++ comma.val :: s = (D.tokens ++ [comma.val]) ++ s := by simp
        rcases bind_eq_error_iff.mp h with h | ⟨es, c, _, h⟩
        · rw [happend]
          apply (ih _ _ _ _ _ h).lift
          rintro _ ⟨A, rfl⟩
          exact ⟨[], .more D comma A, by simp [ExprDerivation.tokens]⟩
        · cases h
      · rw [bind_of_ok hc] at h
        cases h

theorem arguments_stuck (hread : ReadsOperation BinaryOp.topLevel depth x)
    (hx : FailsWithin (YieldsExpr .expression) x) : FailsWithin (YieldsExpr .arguments) (arguments x) := by
  intro ts i f m d h
  simp only [arguments, bind_of_ok (peek_apply _)] at h
  split at h
  · cases h
  · exact separated_stuck hread hx _ _ _ _ _ _ h

theorem arguments_of_ok (hread : ReadsOperation BinaryOp.topLevel depth x) {ts : List Token}
    {i : Nat} {f : Location} {es : List Expr} {c : Cursor} (h : arguments x ⟨ts, i, f⟩ = .ok es c) :
    (c = ⟨ts, i, f⟩ ∧ headKind ts = .rightParen) ∨
      ∃ (A : ExprDerivation .arguments) (r : List Token), ts = A.tokens ++ r ∧
        c = ⟨r, i + A.size, f⟩ := by
  simp only [arguments, bind_of_ok (peek_apply _)] at h
  split at h
  case isTrue hk =>
    cases h
    exact .inl ⟨rfl, hk⟩
  case isFalse =>
    obtain ⟨A, r, rfl, _, _, _, rfl⟩ := separated_sound hread _ h
    exact .inr ⟨A, r, rfl, rfl⟩

theorem named_stuck (hread : ReadsOperation BinaryOp.topLevel depth x)
    (hx : FailsWithin (YieldsExpr .expression) x) :
    FailsWithin (YieldsExpr (.operation 0)) (named x) := by
  intro ts i f m d h
  simp only [named] at h
  rcases bind_eq_error_iff.mp h with h | ⟨t, c, ht, h⟩
  · refine (expect_stuck (by decide) (by simp [TooDeep]) h).lift (w := []) ?_
    rintro _ ⟨name, rfl⟩
    exact ⟨[], .var name, rfl⟩
  obtain ⟨name, r, rfl, rfl, rfl⟩ := expect_of_ok ht
  rcases accept_cases .equal (by decide) r i f with ⟨equal, s, rfl, hc⟩ | ⟨_, hc⟩
  · rw [bind_of_ok hc] at h
    rcases bind_eq_error_iff.mp h with h | ⟨value, c, _, h⟩
    · refine (hx _ _ _ _ _ h).lift (w := [name.val, equal.val]) ?_
      rintro _ ⟨V, rfl⟩
      exact ⟨[], .assign name equal V, by simp [ExprDerivation.tokens]⟩
    · cases h
  · rw [bind_of_ok hc] at h
    simp only [Bool.false_eq_true, ↓reduceIte] at h
    rcases accept_cases .leftParen (by decide) r i f with ⟨left, s, rfl, hc⟩ | ⟨_, hc⟩
    · rw [bind_of_ok hc] at h
      simp only [↓reduceIte] at h
      rcases bind_eq_error_iff.mp h with h | ⟨args, c, hargs, h⟩
      · refine (arguments_stuck hread hx _ _ _ _ _ h).lift (w := [name.val, left.val]) ?_
        rintro _ ⟨A, rfl⟩
        exact ⟨[(Token.sample .rightParen).val], .call name left A (Token.sample .rightParen),
          by simp [ExprDerivation.tokens]⟩
      rcases bind_eq_error_iff.mp h with h | ⟨right, c', _, h⟩
      · rcases arguments_of_ok hread hargs with ⟨rfl, hright⟩ | ⟨A, r, rfl, rfl⟩
        · obtain ⟨right, r, rfl⟩ := exists_of_headKind hright (by decide)
          rw [expect_of] at h
          cases h
        · refine ((expect_stuck (by decide) (by simp [TooDeep]) h).lift
            (L := YieldsExpr (.operation 0)) (w := name.val :: left.val :: A.tokens) ?_)
          rintro _ ⟨right, rfl⟩
          exact ⟨[], .call name left A right, by simp [ExprDerivation.tokens]⟩
      · cases h
    · rw [bind_of_ok hc] at h
      cases h

theorem signed_stuck (hx : FailsWithin (YieldsExpr (.operation 0)) x) (op : UnaryOp)
    (sign : Token.Of op.sign) {r : List Token} {i : Nat} {f : Location} {m : Mismatch} {d : Cursor}
    (h : signed op x ⟨sign.val :: r, i, f⟩ = .error m d) :
    Stuck (YieldsExpr (.operation 0)) (sign.val :: r) m d := by
  change (x >>= fun e => fresh sign.val.location >>= fun m =>
    pure (Expr.unary op e m)) ⟨r, i, f⟩ = _ at h
  rcases bind_eq_error_iff.mp h with h | ⟨e, c, _, h⟩
  · refine (hx _ _ _ _ _ h).lift (w := [sign.val]) ?_
    rintro _ ⟨D, rfl⟩
    exact ⟨[], .signed op sign D, by simp [ExprDerivation.tokens]⟩
  · cases h

theorem parenthesized_stuck (hread : ReadsOperation BinaryOp.topLevel depth x)
    (hx : FailsWithin (YieldsExpr .expression) x) (left : Token.Of .leftParen) {r : List Token}
    {i : Nat} {f : Location} {m : Mismatch} {d : Cursor}
    (h : parenthesized x ⟨left.val :: r, i, f⟩ = .error m d) :
    Stuck (YieldsExpr (.operation 0)) (left.val :: r) m d := by
  change (x >>= fun e => expect .rightParen "after expression" >>= fun _ => pure e) ⟨r, i, f⟩ = _
    at h
  rcases bind_eq_error_iff.mp h with h | ⟨e, c, he, h⟩
  · refine (hx _ _ _ _ _ h).lift (w := [left.val]) ?_
    rintro _ ⟨D, rfl⟩
    exact ⟨[(Token.sample .rightParen).val], .parenthesized left D (Token.sample .rightParen),
      by simp [ExprDerivation.tokens]⟩
  · obtain ⟨D, r, rfl, _, _, rfl⟩ := hread.sound he
    rcases bind_eq_error_iff.mp h with h | ⟨t, c, _, h⟩
    · refine (expect_stuck (by decide) (by simp [TooDeep]) h).lift
        (L := YieldsExpr (.operation 0)) (w := left.val :: D.tokens) ?_
      rintro _ ⟨right, rfl⟩
      exact ⟨[], .parenthesized left D right, by simp [ExprDerivation.tokens]⟩
    · cases h

theorem literal_stuck : FailsWithin (YieldsExpr (.operation 0)) literal := by
  intro ts i f m d h
  simp only [literal] at h
  rcases bind_eq_error_iff.mp h with h | ⟨t, c, _, h⟩
  · refine (expect_stuck (by decide) (by simp [TooDeep]) h).lift (w := []) ?_
    rintro _ ⟨token, rfl⟩
    exact ⟨[], .number token, rfl⟩
  · cases h

/-- Each kind that is reported at the start of an operand begins some operand. -/
theorem exists_operand_of_opens {k : Kind} (hk : k.opens = true) (t : Token.Of k) :
    ∃ v, YieldsExpr (.operation 0) (t.val :: v) := by
  have hinner := ExprDerivation.sample BinaryOp.topLevel
  cases k with
  | leftParen => exact ⟨_, .parenthesized t hinner (Token.sample .rightParen), rfl⟩
  | number => exact ⟨_, .number t, rfl⟩
  | bang => exact ⟨_, .signed .not t (.sample 0), rfl⟩
  | minus => exact ⟨_, .signed .neg t (.sample 0), rfl⟩
  | name => exact ⟨_, .var t, rfl⟩
  | _ => exact absurd hk (by decide)

theorem operand_stuck : ∀ depth, FailsWithin (YieldsExpr (.operation 0)) (operand depth)
  | 0 => by
    intro ts i f m d h
    exact fail_stuck Expr (by simp [TooDeep]) (by simp) h
  | depth + 1 => by
    have hx := operand_stuck depth
    have hread := reads_operand depth
    have htop := operation_stuck hread hx BinaryOp.topLevel
    have hreadtop := reads_operation hread BinaryOp.topLevel
    intro ts i f m d h
    rw [operand_succ] at h
    split at h
    case h_1 hk =>
      obtain ⟨sign, r, rfl⟩ := exists_of_headKind hk (by decide)
      exact signed_stuck hx .not sign h
    case h_2 hk =>
      obtain ⟨sign, r, rfl⟩ := exists_of_headKind hk (by decide)
      exact signed_stuck hx .neg sign h
    case h_3 hk =>
      obtain ⟨left, r, rfl⟩ := exists_of_headKind hk (by decide)
      exact parenthesized_stuck hreadtop htop left h
    case h_4 => exact literal_stuck _ _ _ _ _ h
    case h_5 => exact named_stuck hreadtop htop _ _ _ _ _ h
    case h_6 hbang hminus hleft hnumber hname =>
      refine fail_stuck Expr (by simp [TooDeep]) ?_ h
      intro k hk
      have hopens : k.opens = true := by
        revert k
        decide
      refine ⟨?_, ?_, exists_operand_of_opens hopens⟩
      · rintro rfl
        simp only [List.mem_cons, List.not_mem_nil, or_false] at hk
        rcases hk with hk | hk | hk | hk | hk
        · exact hleft hk
        · exact hnumber hk
        · exact hbang hk
        · exact hminus hk
        · exact hname hk
      · rintro rfl
        exact absurd hopens (by decide)

theorem expression_stuck (depth : Nat) : FailsWithin (YieldsExpr .expression) (expression depth) :=
  operation_stuck (reads_operand depth) (operand_stuck depth) BinaryOp.topLevel

end Operands

end Grammar
end MiniCheck
