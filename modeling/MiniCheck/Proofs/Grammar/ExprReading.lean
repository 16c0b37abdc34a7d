import MiniCheck.Proofs.Grammar.Step

/-!
# Reading expressions

The reader of operations of a level answers exactly where a settled derivation of
that level, within the budget of nesting levels, can be taken off the front such
that the token behind it does not belong to it too.
-/

namespace MiniCheck

namespace Token.Kind

/-- Whether tokens of this kind stand behind whole expressions. -/
def closes (k : Kind) : Bool := k = rightParen || k = semicolon || k = comma

/-- Whether tokens of this kind stand at the front of expressions. -/
def opens (k : Kind) : Bool :=
  k = leftParen || k = number || k = bang || k = minus || k = name

theorem ne_sign_of_closes {k : Kind} (h : k.closes = true) (op : BinaryOp) : k ≠ op.sign := by
  rintro rfl
  cases op <;> exact absurd h (by decide)

end Token.Kind

namespace Grammar

open Token (Kind)
open Grammar.Parser

namespace ExprDerivation

/-- Whether the last operand is over where a token of kind `k` follows. -/
def Ends : {r : ExprRule} → ExprDerivation r → Kind → Prop
  | _, signed _ _ operand, k => operand.Ends k
  | _, assign _ _ value, k => value.Ends k ∧ ∀ op : BinaryOp, k ≠ op.sign
  | _, var _, k => k ≠ .equal ∧ k ≠ .leftParen
  | _, tighter inner, k => inner.Ends k
  | _, binary _ _ _ _ right, k => right.Ends k
  | _, last arg, k => arg.Ends k
  | _, more _ _ rest, k => rest.Ends k
  | _, parenthesized _ _ _, _ | _, number _, _ | _, callEmpty _ _ _, _ | _, call _ _ _ _, _ => True

/-- Whether no token of kind `k` belongs to the operation if it follows. -/
def Stops {n : Nat} (D : ExprDerivation (.operation n)) (k : Kind) : Prop :=
  D.Ends k ∧ ∀ op : BinaryOp, k = op.sign → n < op.level

/-- An operator is taken in by the right side of an assignment, and by nothing else. -/
theorem ends_sign_iff (op : BinaryOp) :
    ∀ {r : ExprRule} (D : ExprDerivation r), D.Ends op.sign ↔ D.isOpen = false
  | _, signed _ _ operand => ends_sign_iff op operand
  | _, assign _ _ _ => ⟨fun h => absurd rfl (h.2 op), fun h => Bool.noConfusion h⟩
  | _, tighter inner => ends_sign_iff op inner
  | _, binary _ _ _ _ right => ends_sign_iff op right
  | _, last arg => ends_sign_iff op arg
  | _, more _ _ rest => ends_sign_iff op rest
  | _, var _ => by cases op <;> simp [Ends, isOpen, BinaryOp.sign]
  | _, parenthesized _ _ _ => ⟨fun _ => rfl, fun _ => trivial⟩
  | _, number _ => ⟨fun _ => rfl, fun _ => trivial⟩
  | _, callEmpty _ _ _ => ⟨fun _ => rfl, fun _ => trivial⟩
  | _, call _ _ _ _ => ⟨fun _ => rfl, fun _ => trivial⟩

theorem ends_of_closes {k : Kind} (h : k.closes = true) :
    ∀ {r : ExprRule} (D : ExprDerivation r), D.Ends k
  | _, signed _ _ operand => ends_of_closes h operand
  | _, assign _ _ value => ⟨ends_of_closes h value, Kind.ne_sign_of_closes h⟩
  | _, tighter inner => ends_of_closes h inner
  | _, binary _ _ _ _ right => ends_of_closes h right
  | _, last arg => ends_of_closes h arg
  | _, more _ _ rest => ends_of_closes h rest
  | _, var _ => by
    constructor <;> rintro rfl <;> exact absurd h (by decide)
  | _, parenthesized _ _ _ | _, number _ | _, callEmpty _ _ _ | _, call _ _ _ _ => trivial

theorem stops_of_closes {k : Kind} (h : k.closes = true) {n : Nat}
    (D : ExprDerivation (.operation n)) : D.Stops k :=
  ⟨ends_of_closes h D, fun op hop => absurd hop (Kind.ne_sign_of_closes h op)⟩

theorem opens_headKind (ts : List Token) :
    ∀ {r : ExprRule} (D : ExprDerivation r), (headKind (D.tokens ++ ts)).opens = true
  | _, signed op sign _ => by
    simp only [tokens, List.cons_append, headKind_cons, sign.property]
    cases op <;> rfl
  | _, parenthesized left _ _ => by
    simp only [tokens, List.cons_append, headKind_cons, left.property]
    rfl
  | _, number token => by
    simp only [tokens, List.cons_append, headKind_cons, token.property]
    rfl
  | _, assign name _ _ => by
    simp only [tokens, List.cons_append, headKind_cons, name.property]
    rfl
  | _, callEmpty name _ _ => by
    simp only [tokens, List.cons_append, headKind_cons, name.property]
    rfl
  | _, call name _ _ _ => by
    simp only [tokens, List.cons_append, headKind_cons, name.property]
    rfl
  | _, var name => by
    simp only [tokens, List.cons_append, headKind_cons, name.property]
    rfl
  | _, tighter inner => opens_headKind ts inner
  | _, binary left _ _ sign right => by
    simpa only [tokens, List.append_assoc] using opens_headKind (sign.val :: right.tokens ++ ts) left
  | _, last arg => opens_headKind ts arg
  | _, more arg comma rest => by
    simpa only [tokens, List.append_assoc] using opens_headKind (comma.val :: rest.tokens ++ ts) arg

/-- A derivation that a reader with a budget of `depth` levels takes off in front of `r`. -/
structure Admitted (depth : Nat) {n : Nat} (D : ExprDerivation (.operation n))
    (r : List Token) : Prop where
  settled : D.Settled
  nesting : D.nesting ≤ depth
  stops : D.Stops (headKind r)

theorem Admitted.of_closes {depth n : Nat} {D : ExprDerivation (.operation n)} {r : List Token}
    (hs : D.Settled) (hn : D.nesting ≤ depth) (hr : (headKind r).closes = true) :
    D.Admitted depth r :=
  ⟨hs, hn, stops_of_closes hr D⟩

end ExprDerivation

open ExprDerivation (Admitted)

abbrev ReadsOperation (n depth : Nat) (x : Parser Expr) : Prop :=
  Reads (fun D : ExprDerivation (.operation n) => D.tokens) (fun D => D.size)
    (fun D => D.tree) (fun D => D.Admitted depth) x

/-! ## The operations of one level -/

section Chain

variable {n depth : Nat} {operand : Parser Expr} {i : Nat} {f : Location}

theorem chain_of_none {ts : List Token} (h : BinaryOp.atLevel? n (headKind ts) = none) (bound : List Token)
    (left : Expr) : chain n operand bound left ⟨ts, i, f⟩ = .ok left ⟨ts, i, f⟩ := by
  cases bound with
  | nil => rfl
  | cons b bound => simp [chain, bind_apply, h]

theorem chain_of_some {t : Token} {ts : List Token} {op : BinaryOp} (h : BinaryOp.atLevel? n t.kind = some op)
    (b : Token) (bound : List Token) (left : Expr) :
    chain n operand (b :: bound) left ⟨t :: ts, i, f⟩ =
      (operand >>= fun right => fresh t.location >>= fun m =>
        chain n operand bound (.binary op left right m)) ⟨ts, i, f⟩ := by
  simp [chain, bind_apply, h]

/-- The bound does not run out before the tokens do, so what stops the chain is that no
operator of its level comes next. -/
theorem chain_sound (hx : ReadsOperation n depth operand) (bound : List Token)
    (L : ExprDerivation (.operation (n + 1))) {ts : List Token} (hs : L.Settled)
    (hn : L.nesting ≤ depth) (he : L.Ends (headKind ts))
    (hl : ∀ op : BinaryOp, headKind ts = op.sign → n < op.level)
    (hb : ts.length ≤ bound.length) {e : Expr} {d : Cursor}
    (h : chain (n + 1) operand bound (L.tree i) ⟨ts, i + L.size, f⟩ = .ok e d) :
    ∃ (D : ExprDerivation (.operation (n + 1))) (r : List Token),
      L.tokens ++ ts = D.tokens ++ r ∧ D.Admitted depth r ∧ e = D.tree i ∧
        d = ⟨r, i + D.size, f⟩ := by
  induction bound generalizing L ts with
  | nil =>
    obtain rfl : ts = [] := List.length_eq_zero_iff.mp (Nat.le_zero.mp hb)
    cases h
    refine ⟨L, [], rfl, ⟨hs, hn, he, ?_⟩, rfl, rfl⟩
    intro op hop
    cases op <;> exact absurd hop (by decide)
  | cons b bound ih =>
    cases ho : BinaryOp.atLevel? (n + 1) (headKind ts) with
    | none =>
      rw [chain_of_none ho] at h
      cases h
      refine ⟨L, ts, rfl, ⟨hs, hn, he, fun op hop => ?_⟩, rfl, rfl⟩
      have hne := BinaryOp.atLevel?_eq_none_iff.mp ho op hop
      have hlt := hl op hop
      omega
    | some op =>
      obtain ⟨hk, hlevel⟩ := BinaryOp.atLevel?_eq_some_iff.mp ho
      obtain ⟨t, ts, rfl⟩ := exists_of_headKind hk (by cases op <;> decide)
      have ho' : BinaryOp.atLevel? (n + 1) t.val.kind = some op := ho
      rw [chain_of_some ho'] at h
      obtain ⟨right, c, hright, h⟩ := bind_eq_ok_iff.mp h
      obtain ⟨R, r, rfl, hR, rfl, rfl⟩ := hx.sound hright
      have hopen : L.isOpen = false := (ExprDerivation.ends_sign_iff op L).mp (hk ▸ he)
      have hnest : max L.nesting R.nesting ≤ depth := Nat.max_le.mpr ⟨hn, hR.nesting⟩
      obtain ⟨D, s, htokens, hD, rfl, rfl⟩ := ih (.binary L op hlevel t R)
        ⟨hs, hopen, hR.settled⟩ hnest hR.stops.1 hR.stops.2
        (by simp only [List.length_cons, List.length_append] at hb; omega)
        (by simpa [bind_apply, ExprDerivation.tree, ExprDerivation.size, Nat.add_assoc] using h)
      refine ⟨D, s, ?_, hD, rfl, rfl⟩
      simpa [ExprDerivation.tokens] using htokens

/-- Reading the operations of a derivation comes to the chain that goes on behind them. -/
theorem operation_eq_chain (hx : ReadsOperation n depth (operation operand n))
    (D : ExprDerivation (.operation (n + 1))) {ts : List Token} (hs : D.Settled)
    (hn : D.nesting ≤ depth) (he : D.Ends (headKind ts))
    (hl : ∀ op : BinaryOp, headKind ts = op.sign → n < op.level) :
    ∃ bound : List Token, ts.length ≤ bound.length ∧
      operation operand (n + 1) ⟨D.tokens ++ ts, i, f⟩ =
        chain (n + 1) (operation operand n) bound (D.tree i) ⟨ts, i + D.size, f⟩ := by
  match D with
  | .tighter inner =>
    refine ⟨ts, Nat.le_refl _, ?_⟩
    have hread := hx.complete (D := inner) ⟨hs, hn, he, hl⟩ i f
    change (operation operand n >>= _) ⟨inner.tokens ++ ts, i, f⟩ = _
    rw [bind_of_ok hread]
    rfl
  | .binary left op level sign right =>
    obtain ⟨hleft, hopen, hright⟩ := hs
    obtain ⟨hnleft, hnright⟩ := Nat.max_le.mp hn
    have hends : left.Ends (headKind (sign.val :: (right.tokens ++ ts))) := by
      rw [headKind_cons, sign.property]
      exact (ExprDerivation.ends_sign_iff op left).mpr hopen
    have hlevel : ∀ other : BinaryOp,
        headKind (sign.val :: (right.tokens ++ ts)) = other.sign → n < other.level := by
      intro other hother
      rw [headKind_cons, sign.property] at hother
      obtain rfl := BinaryOp.sign_injective hother
      omega
    obtain ⟨bound, hbound, hrun⟩ := operation_eq_chain hx left hleft hnleft hends hlevel
    cases bound with
    | nil => exact absurd hbound (by simp)
    | cons b bound =>
      refine ⟨bound, by simp only [List.length_cons, List.length_append] at hbound; omega, ?_⟩
      have hsome : BinaryOp.atLevel? (n + 1) sign.val.kind = some op :=
        BinaryOp.atLevel?_eq_some_iff.mpr ⟨sign.property, level⟩
      have hread := hx.complete (D := right) ⟨hright, hnright, he, hl⟩ (i + left.size) f
      simp only [ExprDerivation.tokens, List.append_assoc, List.cons_append]
      rw [hrun, chain_of_some hsome, bind_of_ok hread, bind_of_ok (fresh_apply _ _)]
      simp only [ExprDerivation.tree, ExprDerivation.size, Nat.add_assoc]

end Chain

theorem reads_operation {depth : Nat} {x : Parser Expr} (hx : ReadsOperation 0 depth x) :
    ∀ n : Nat, ReadsOperation n depth (operation x n)
  | 0 => hx
  | n + 1 => by
    have ih := reads_operation hx n
    intro ts i f e d
    constructor
    · intro h
      simp only [operation] at h
      obtain ⟨left, c, hleft, h⟩ := bind_eq_ok_iff.mp h
      obtain ⟨L, r, rfl, hL, rfl, rfl⟩ := ih.sound hleft
      exact chain_sound ih r (.tighter L) hL.settled hL.nesting hL.stops.1 hL.stops.2
        (Nat.le_refl _) h
    · rintro ⟨D, r, rfl, hD, rfl, rfl⟩
      obtain ⟨bound, _, hrun⟩ := operation_eq_chain ih D hD.settled hD.nesting hD.stops.1
        (fun op hop => Nat.lt_of_succ_lt (hD.stops.2 op hop)) (i := i) (f := f)
      rw [hrun]
      refine chain_of_none (BinaryOp.atLevel?_eq_none_iff.mpr fun op hop hlevel => ?_) bound _
      have hlt := hD.stops.2 op hop
      omega

/-! ## Lists of arguments -/

section Arguments

variable {depth : Nat} {x : Parser Expr} {i : Nat} {f : Location}

theorem separated_sound (hx : ReadsOperation BinaryOp.topLevel depth x) (bound : List Token)
    {ts : List Token} {es : List Expr} {d : Cursor} (h : separated x bound ⟨ts, i, f⟩ = .ok es d) :
    ∃ (D : ExprDerivation .arguments) (r : List Token), ts = D.tokens ++ r ∧ D.Settled ∧
      D.nesting ≤ depth ∧ es = D.tree i ∧ d = ⟨r, i + D.size, f⟩ := by
  induction bound generalizing ts i es d with
  | nil =>
    simp only [separated] at h
    obtain ⟨e, c, he, h⟩ := bind_eq_ok_iff.mp h
    obtain ⟨D, r, rfl, hD, rfl, rfl⟩ := hx.sound he
    cases h
    exact ⟨.last D, r, rfl, hD.settled, hD.nesting, rfl, rfl⟩
  | cons b bound ih =>
    simp only [separated] at h
    obtain ⟨e, c, he, h⟩ := bind_eq_ok_iff.mp h
    obtain ⟨D, r, rfl, hD, rfl, rfl⟩ := hx.sound he
    obtain ⟨comma, s, rfl, hc⟩ | ⟨_, hc⟩ :=
      accept_cases .comma (by decide) r (i + D.size) f
    · rw [bind_of_ok hc] at h
      obtain ⟨es, c, hes, h⟩ := bind_eq_ok_iff.mp h
      obtain ⟨R, r, rfl, hs, hn, rfl, rfl⟩ := ih hes
      cases h
      refine ⟨.more D comma R, r, ?_, ⟨hD.settled, hs⟩, Nat.max_le.mpr ⟨hD.nesting, hn⟩, rfl, ?_⟩
      · simp [ExprDerivation.tokens]
      · simp [ExprDerivation.size, Nat.add_assoc]
    · rw [bind_of_ok hc] at h
      cases h
      exact ⟨.last D, r, rfl, hD.settled, hD.nesting, rfl, rfl⟩

theorem separated_complete (hx : ReadsOperation BinaryOp.topLevel depth x)
    (D : ExprDerivation .arguments) {r : List Token} (hs : D.Settled) (hn : D.nesting ≤ depth)
    (hr : headKind r = .rightParen) (bound : List Token)
    (hb : (D.tokens ++ r).length ≤ bound.length) (i : Nat) :
    separated x bound ⟨D.tokens ++ r, i, f⟩ = .ok (D.tree i) ⟨r, i + D.size, f⟩ := by
  match D with
  | .last arg =>
    have hread := hx.complete (D := arg) (.of_closes hs hn (by rw [hr]; rfl)) i f
    have hc : accept .comma ⟨r, i + arg.size, f⟩ = .ok false ⟨r, i + arg.size, f⟩ :=
      accept_of_ne (by rw [hr]; decide)
    cases bound with
    | nil =>
      simp only [separated]
      exact bind_of_ok hread
    | cons b bound =>
      simp only [separated]
      exact (bind_of_ok hread).trans (bind_of_ok hc)
  | .more arg comma rest =>
    obtain ⟨hnarg, hnrest⟩ := Nat.max_le.mp hn
    have hread := hx.complete (D := arg) (r := comma.val :: (rest.tokens ++ r))
      (.of_closes hs.1 hnarg (by rw [headKind_cons, comma.property]; rfl)) i f
    cases bound with
    | nil => exact absurd hb (by simp [ExprDerivation.tokens])
    | cons b bound =>
      have hb' : (rest.tokens ++ r).length ≤ bound.length := by
        simp only [ExprDerivation.tokens, List.length_append, List.length_cons] at hb ⊢
        omega
      have hrest := separated_complete hx rest hs.2 hnrest hr bound hb' (i + arg.size)
      simp only [separated, ExprDerivation.tokens, List.append_assoc, List.cons_append]
      rw [bind_of_ok hread, bind_of_ok (accept_of _ _ _)]
      simp only [↓reduceIte]
      rw [bind_of_ok hrest]
      simp [ExprDerivation.tree, ExprDerivation.size, Nat.add_assoc]

end Arguments

/-! ## Operands -/

namespace ExprDerivation

theorem nesting_pos : ∀ {r : ExprRule} (D : ExprDerivation r), 0 < D.nesting
  | _, signed _ _ _ | _, parenthesized _ _ _ | _, number _ | _, assign _ _ _
  | _, callEmpty _ _ _ | _, call _ _ _ _ | _, var _ => Nat.succ_pos _
  | _, tighter inner => nesting_pos inner
  | _, binary left _ _ _ _ => Nat.lt_of_lt_of_le (nesting_pos left) (Nat.le_max_left _ _)
  | _, last arg => nesting_pos arg
  | _, more arg _ _ => Nat.lt_of_lt_of_le (nesting_pos arg) (Nat.le_max_left _ _)

/-- What a reader of operands with a budget of `depth` levels may answer with. -/
def Answers (depth : Nat) (ts : List Token) (i : Nat) (f : Location) (e : Expr) (d : Cursor) :
    Prop :=
  ∃ (D : ExprDerivation (.operation 0)) (r : List Token), ts = D.tokens ++ r ∧
    D.Admitted depth r ∧ e = D.tree i ∧ d = ⟨r, i + D.size, f⟩

/-- An operand takes in no operator, so it only has to be over. -/
theorem Admitted.of_ends {depth : Nat} {D : ExprDerivation (.operation 0)} {r : List Token}
    (hs : D.Settled) (hn : D.nesting ≤ depth) (he : D.Ends (headKind r)) : D.Admitted depth r :=
  ⟨hs, hn, he, fun op _ => op.level_pos⟩

end ExprDerivation

open ExprDerivation (Answers)

section Operand

variable {depth : Nat} {x : Parser Expr} {r : List Token} {i : Nat} {f : Location} {e : Expr}
  {d : Cursor}

theorem signed_sound (hx : ReadsOperation 0 depth x) (op : UnaryOp) (sign : Token.Of op.sign)
    (h : signed op x ⟨sign.val :: r, i, f⟩ = .ok e d) :
    Answers (depth + 1) (sign.val :: r) i f e d := by
  change (x >>= fun e => fresh sign.val.location >>= fun m =>
    pure (Expr.unary op e m)) ⟨r, i, f⟩ = _ at h
  obtain ⟨e, c, he, h⟩ := bind_eq_ok_iff.mp h
  obtain ⟨D, s, rfl, hD, rfl, rfl⟩ := hx.sound he
  cases h
  exact ⟨.signed op sign D, s, rfl, .of_ends hD.settled (Nat.succ_le_succ hD.nesting) hD.stops.1,
    rfl, rfl⟩

theorem parenthesized_sound (hx : ReadsOperation BinaryOp.topLevel depth x)
    (left : Token.Of .leftParen) (h : parenthesized x ⟨left.val :: r, i, f⟩ = .ok e d) :
    Answers (depth + 1) (left.val :: r) i f e d := by
  change (x >>= fun e => expect .rightParen "after expression" >>= fun _ => pure e) ⟨r, i, f⟩ = _
    at h
  obtain ⟨e, c, he, h⟩ := bind_eq_ok_iff.mp h
  obtain ⟨D, s, rfl, hD, rfl, rfl⟩ := hx.sound he
  obtain ⟨t, c, ht, h⟩ := bind_eq_ok_iff.mp h
  obtain ⟨right, s, rfl, rfl, rfl⟩ := expect_of_ok ht
  cases h
  refine ⟨.parenthesized left D right, s, ?_, .of_ends hD.settled (Nat.succ_le_succ hD.nesting)
    trivial, rfl, rfl⟩
  simp [ExprDerivation.tokens]

theorem literal_sound (token : Token.Of .number)
    (h : literal ⟨token.val :: r, i, f⟩ = .ok e d) :
    Answers (depth + 1) (token.val :: r) i f e d := by
  simp only [literal, bind_of_ok (expect_of .number _ token r)] at h
  cases h
  exact ⟨.number token, r, rfl, .of_ends trivial (Nat.succ_le_succ (Nat.zero_le _)) trivial, rfl,
    rfl⟩

theorem named_sound (hx : ReadsOperation BinaryOp.topLevel depth x) (name : Token.Of .name)
    (h : named x ⟨name.val :: r, i, f⟩ = .ok e d) :
    Answers (depth + 1) (name.val :: r) i f e d := by
  simp only [named, bind_of_ok (expect_of .name _ name r)] at h
  rcases accept_cases .equal (by decide) r i f with ⟨equal, s, rfl, hc⟩ | ⟨hequal, hc⟩
  · rw [bind_of_ok hc] at h
    obtain ⟨value, c, hvalue, h⟩ := bind_eq_ok_iff.mp h
    obtain ⟨D, s, rfl, hD, rfl, rfl⟩ := hx.sound hvalue
    cases h
    refine ⟨.assign name equal D, s, rfl, .of_ends hD.settled (Nat.succ_le_succ hD.nesting)
      ⟨hD.stops.1, fun op hop => ?_⟩, rfl, rfl⟩
    exact absurd (hD.stops.2 op hop) (Nat.not_lt.mpr op.level_le_topLevel)
  · rw [bind_of_ok hc] at h
    rcases accept_cases .leftParen (by decide) r i f with ⟨left, s, rfl, hc⟩ | ⟨hleft, hc⟩
    · simp only [Bool.false_eq_true, ↓reduceIte] at h
      rw [bind_of_ok hc] at h
      simp only [↓reduceIte] at h
      obtain ⟨args, c, hargs, h⟩ := bind_eq_ok_iff.mp h
      obtain ⟨t, c', ht, h⟩ := bind_eq_ok_iff.mp h
      by_cases hk : headKind s = .rightParen
      · obtain ⟨right, s, rfl⟩ := exists_of_headKind hk (by decide)
        have hempty : arguments x ⟨right.val :: s, i, f⟩ = .ok [] ⟨right.val :: s, i, f⟩ := by
          simp [arguments, bind_apply]
        rw [hempty] at hargs
        cases hargs
        rw [expect_of] at ht
        cases ht
        cases h
        exact ⟨.callEmpty name left right, s, rfl,
          .of_ends trivial (Nat.succ_le_succ (Nat.zero_le _)) trivial, rfl, rfl⟩
      · have hlist : arguments x ⟨s, i, f⟩ = separated x s ⟨s, i, f⟩ := by
          simp [arguments, bind_apply, hk]
        rw [hlist] at hargs
        obtain ⟨D, s, rfl, hs, hn, rfl, rfl⟩ := separated_sound hx _ hargs
        obtain ⟨right, s, rfl, rfl, rfl⟩ := expect_of_ok ht
        cases h
        refine ⟨.call name left D right, s, ?_, .of_ends hs (Nat.succ_le_succ hn) trivial, rfl, rfl⟩
        simp [ExprDerivation.tokens]
    · simp only [Bool.false_eq_true, ↓reduceIte] at h
      rw [bind_of_ok hc] at h
      cases h
      exact ⟨.var name, r, rfl, .of_ends trivial (Nat.succ_le_succ (Nat.zero_le _)) ⟨hequal, hleft⟩,
        rfl, rfl⟩

/-- The first token decides which kind of operand is read. -/
theorem operand_succ (depth : Nat) (c : Cursor) :
    operand (depth + 1) c =
      match c.kind with
      | .bang => signed .not (operand depth) c
      | .minus => signed .neg (operand depth) c
      | .leftParen => parenthesized (operation (operand depth) BinaryOp.topLevel) c
      | .number => literal c
      | .name => named (operation (operand depth) BinaryOp.topLevel) c
      | _ => .error (c.mismatch [.leftParen, .number, .bang, .minus, .name]
          "to start an expression") c := by
  simp only [operand, bind_of_ok (peek_apply _)]
  cases c.kind <;> rfl

theorem operand_sound (hx : ReadsOperation 0 depth (operand depth)) {ts : List Token}
    (h : operand (depth + 1) ⟨ts, i, f⟩ = .ok e d) : Answers (depth + 1) ts i f e d := by
  have htop := reads_operation hx BinaryOp.topLevel
  rw [operand_succ] at h
  split at h
  case h_1 hk =>
    obtain ⟨sign, r, rfl⟩ := exists_of_headKind hk (by decide)
    exact signed_sound hx .not sign h
  case h_2 hk =>
    obtain ⟨sign, r, rfl⟩ := exists_of_headKind hk (by decide)
    exact signed_sound hx .neg sign h
  case h_3 hk =>
    obtain ⟨left, r, rfl⟩ := exists_of_headKind hk (by decide)
    exact parenthesized_sound htop left h
  case h_4 hk =>
    obtain ⟨token, r, rfl⟩ := exists_of_headKind hk (by decide)
    exact literal_sound token h
  case h_5 hk =>
    obtain ⟨name, r, rfl⟩ := exists_of_headKind hk (by decide)
    exact named_sound htop name h
  case h_6 => cases h

theorem named_assign (hx : ReadsOperation BinaryOp.topLevel depth x) (name : Token.Of .name)
    (equal : Token.Of .equal) (value : ExpressionDerivation)
    (h : (ExprDerivation.assign name equal value).Admitted (depth + 1) r) :
    named x ⟨name.val :: equal.val :: (value.tokens ++ r), i, f⟩ =
      .ok (.assign name.val.lexeme (value.tree i) ⟨i + value.size, name.val.location⟩)
        ⟨r, i + value.size + 1, f⟩ := by
  have hread := hx.complete (D := value) (r := r) ⟨h.settled, Nat.le_of_succ_le_succ h.nesting,
    h.stops.1.1, fun op hop => absurd hop (h.stops.1.2 op)⟩ i f
  simp only [named, bind_of_ok (expect_of .name _ name _), bind_of_ok (accept_of .equal equal _),
    ↓reduceIte, bind_of_ok hread]
  rfl

theorem named_callEmpty (x : Parser Expr) (name : Token.Of .name) (left : Token.Of .leftParen)
    (right : Token.Of .rightParen) :
    named x ⟨name.val :: left.val :: right.val :: r, i, f⟩ =
      .ok (.call name.val.lexeme [] ⟨i, name.val.location⟩) ⟨r, i + 1, f⟩ := by
  have hequal : accept .equal ⟨left.val :: right.val :: r, i, f⟩ =
      .ok false ⟨left.val :: right.val :: r, i, f⟩ :=
    accept_of_ne (by rw [headKind_cons, left.property]; decide)
  have hempty : arguments x ⟨right.val :: r, i, f⟩ = .ok [] ⟨right.val :: r, i, f⟩ := by
    simp [arguments, bind_apply]
  simp only [named, bind_of_ok (expect_of .name _ name _), bind_of_ok hequal, Bool.false_eq_true,
    ↓reduceIte, bind_of_ok (accept_of .leftParen left _), bind_of_ok hempty,
    bind_of_ok (expect_of .rightParen _ right _)]
  rfl

theorem named_var (x : Parser Expr) (name : Token.Of .name) (hequal : headKind r ≠ .equal)
    (hleft : headKind r ≠ .leftParen) :
    named x ⟨name.val :: r, i, f⟩ =
      .ok (.var name.val.lexeme ⟨i, name.val.location⟩) ⟨r, i + 1, f⟩ := by
  simp only [named, bind_of_ok (expect_of .name _ name _), bind_of_ok (accept_of_ne hequal),
    bind_of_ok (accept_of_ne hleft), Bool.false_eq_true, ↓reduceIte]
  rfl

theorem named_call (hx : ReadsOperation BinaryOp.topLevel depth x) (name : Token.Of .name)
    (left : Token.Of .leftParen) (args : ExprDerivation .arguments) (right : Token.Of .rightParen)
    (hs : args.Settled) (hn : args.nesting ≤ depth) :
    named x ⟨name.val :: left.val :: (args.tokens ++ right.val :: r), i, f⟩ =
      .ok (.call name.val.lexeme (args.tree i) ⟨i + args.size, name.val.location⟩)
        ⟨r, i + args.size + 1, f⟩ := by
  have hequal : accept .equal ⟨left.val :: (args.tokens ++ right.val :: r), i, f⟩ =
      .ok false ⟨left.val :: (args.tokens ++ right.val :: r), i, f⟩ :=
    accept_of_ne (by rw [headKind_cons, left.property]; decide)
  have hread := separated_complete hx args hs hn (r := right.val :: r) (f := f) right.property
    (args.tokens ++ right.val :: r) (Nat.le_refl _) i
  have hargs : arguments x ⟨args.tokens ++ right.val :: r, i, f⟩ =
      .ok (args.tree i) ⟨right.val :: r, i + args.size, f⟩ := by
    have hne : headKind (args.tokens ++ right.val :: r) ≠ .rightParen := by
      intro hk
      have hopens := args.opens_headKind (right.val :: r)
      rw [hk] at hopens
      exact absurd hopens (by decide)
    simp only [arguments, bind_of_ok (peek_apply _), Cursor.kind_mk, hne, ↓reduceIte]
    exact hread
  simp only [named, bind_of_ok (expect_of .name _ name _), bind_of_ok hequal, Bool.false_eq_true,
    ↓reduceIte, bind_of_ok (accept_of .leftParen left _), bind_of_ok hargs,
    bind_of_ok (expect_of .rightParen _ right _)]
  rfl

theorem operand_complete (hx : ReadsOperation 0 depth (operand depth))
    (D : ExprDerivation (.operation 0)) (h : D.Admitted (depth + 1) r) :
    operand (depth + 1) ⟨D.tokens ++ r, i, f⟩ = .ok (D.tree i) ⟨r, i + D.size, f⟩ := by
  have htop := reads_operation hx BinaryOp.topLevel
  rw [operand_succ]
  match D with
  | .signed op sign inner =>
    have hread := hx.complete (D := inner) (r := r)
      (.of_ends h.settled (Nat.le_of_succ_le_succ h.nesting) h.stops.1) i f
    have hrun : signed op (operand depth) ⟨sign.val :: (inner.tokens ++ r), i, f⟩ =
        .ok ((ExprDerivation.signed op sign inner).tree i) ⟨r, i + inner.size + 1, f⟩ := by
      change (operand depth >>= fun e => fresh sign.val.location >>= fun m =>
        pure (Expr.unary op e m)) ⟨inner.tokens ++ r, i, f⟩ = _
      rw [bind_of_ok hread]
      rfl
    have hk : Cursor.kind ⟨sign.val :: (inner.tokens ++ r), i, f⟩ = op.sign := sign.property
    cases op <;> simp only [ExprDerivation.tokens, List.cons_append, hk] <;> exact hrun
  | .parenthesized left inner right =>
    have hread := htop.complete (D := inner) (r := right.val :: r) (.of_closes h.settled
      (Nat.le_of_succ_le_succ h.nesting) (by rw [headKind_cons, right.property]; rfl)) i f
    have hk : Cursor.kind ⟨left.val :: (inner.tokens ++ right.val :: r), i, f⟩ = .leftParen :=
      left.property
    simp only [ExprDerivation.tokens, List.cons_append, List.append_assoc, List.nil_append, hk]
    change (operation (operand depth) BinaryOp.topLevel >>= fun e =>
      expect .rightParen "after expression" >>= fun _ => pure e)
        ⟨inner.tokens ++ right.val :: r, i, f⟩ = _
    rw [bind_of_ok hread, bind_of_ok (expect_of _ _ _ _)]
    rfl
  | .number token =>
    have hk : Cursor.kind ⟨token.val :: r, i, f⟩ = .number := token.property
    simp only [ExprDerivation.tokens, List.cons_append, List.nil_append, hk, literal,
      bind_of_ok (expect_of .number _ token r)]
    rfl
  | .assign name equal value =>
    have hk : Cursor.kind ⟨name.val :: equal.val :: (value.tokens ++ r), i, f⟩ = .name :=
      name.property
    simp only [ExprDerivation.tokens, List.cons_append, hk]
    exact named_assign htop name equal value h
  | .callEmpty name left right =>
    have hk : Cursor.kind ⟨name.val :: left.val :: right.val :: r, i, f⟩ = .name := name.property
    simp only [ExprDerivation.tokens, List.cons_append, List.nil_append, hk]
    exact named_callEmpty _ name left right
  | .call name left args right =>
    have hk : Cursor.kind ⟨name.val :: left.val :: (args.tokens ++ right.val :: r), i, f⟩ = .name :=
      name.property
    simp only [ExprDerivation.tokens, List.cons_append, List.append_assoc, List.nil_append, hk]
    exact named_call htop name left args right h.settled (Nat.le_of_succ_le_succ h.nesting)
  | .var name =>
    have hk : Cursor.kind ⟨name.val :: r, i, f⟩ = .name := name.property
    simp only [ExprDerivation.tokens, List.cons_append, List.nil_append, hk]
    exact named_var _ name h.stops.1.1 h.stops.1.2

end Operand

theorem reads_operand : ∀ depth : Nat, ReadsOperation 0 depth (operand depth)
  | 0 => by
    intro ts i f e d
    constructor
    · intro h
      cases h
    · rintro ⟨D, r, _, hD, _, _⟩
      exact absurd hD.nesting (Nat.not_le.mpr D.nesting_pos)
  | depth + 1 => by
    have ih := reads_operand depth
    intro ts i f e d
    constructor
    · exact operand_sound ih
    · rintro ⟨D, r, rfl, hD, rfl, rfl⟩
      exact operand_complete ih D hD

/-- The reader of expressions answers with the trees of the settled derivations that fit
into its budget, and only with them. -/
theorem reads_expression (depth : Nat) :
    ReadsOperation BinaryOp.topLevel depth (expression depth) :=
  reads_operation (reads_operand depth) BinaryOp.topLevel

end Grammar
end MiniCheck
