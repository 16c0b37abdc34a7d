import MiniCheck.Proofs.Grammar.ExprReading

/-!
# Settled derivations of expressions are unique

Two settled derivations that can be taken off the front of the same tokens, each in
front of a token that does not belong to it, are equal. Operations of one level are
compared link by link, each link being an operator with its right operand.
-/

namespace MiniCheck

namespace Grammar

open Token (Kind)

namespace ExprDerivation

theorem length_pos {r : ExprRule} (D : ExprDerivation r) : 0 < D.tokens.length := by
  have hopens := D.opens_headKind []
  cases htokens : D.tokens with
  | nil =>
    rw [htokens] at hopens
    exact absurd hopens (by decide)
  | cons t ts => exact Nat.succ_pos _

/-- Whether settled derivations of level `n` with at most `m` tokens are determined by
their tokens. -/
def Determined (m n : Nat) : Prop :=
  ∀ (D E : ExprDerivation (.operation n)) (x y : List Token), D.tokens.length ≤ m →
    D.tokens ++ x = E.tokens ++ y → D.Settled → E.Settled → D.Stops (headKind x) →
      E.Stops (headKind y) → D = E ∧ x = y

/-! ## Operations as chains of links -/

structure Link (n : Nat) where
  op : BinaryOp
  level : op.level = n + 1
  sign : Token.Of op.sign
  right : ExprDerivation (.operation n)

def linkTokens {n : Nat} : List (Link n) → List Token
  | [] => []
  | l :: ls => l.sign.val :: (l.right.tokens ++ linkTokens ls)

def extend {n : Nat} (D : ExprDerivation (.operation (n + 1))) :
    List (Link n) → ExprDerivation (.operation (n + 1))
  | [] => D
  | l :: ls => extend (binary D l.op l.level l.sign l.right) ls

theorem exists_extend {n : Nat} : ∀ (D : ExprDerivation (.operation (n + 1))) (ls : List (Link n)),
    ∃ (first : ExprDerivation (.operation n)) (links : List (Link n)),
      extend D ls = extend (tighter first) links
  | tighter first, ls => ⟨first, ls, rfl⟩
  | binary left op level sign right, ls => exists_extend left (⟨op, level, sign, right⟩ :: ls)

theorem tokens_extend {n : Nat} (ls : List (Link n)) (D : ExprDerivation (.operation (n + 1))) :
    (extend D ls).tokens = D.tokens ++ linkTokens ls := by
  induction ls generalizing D with
  | nil => simp [extend, linkTokens]
  | cons l ls ih => simp [extend, linkTokens, tokens, ih]

/-- Each right operand is settled and is over where the next link begins. -/
def LinksEnd {n : Nat} (x : List Token) : List (Link n) → Prop
  | [] => True
  | l :: ls => l.right.Settled ∧ l.right.Ends (headKind (linkTokens ls ++ x)) ∧ LinksEnd x ls

theorem linksEnd_of_settled {n : Nat} {x : List Token} (ls : List (Link n))
    (D : ExprDerivation (.operation (n + 1))) (hs : (extend D ls).Settled)
    (hx : (extend D ls).Ends (headKind x)) :
    D.Settled ∧ D.Ends (headKind (linkTokens ls ++ x)) ∧ LinksEnd x ls := by
  induction ls generalizing D with
  | nil => exact ⟨hs, hx, trivial⟩
  | cons l ls ih =>
    obtain ⟨⟨hD, hclosed, hright⟩, hends, hrest⟩ := ih _ hs hx
    refine ⟨hD, ?_, hright, hends, hrest⟩
    simp only [linkTokens, List.cons_append, headKind_cons, Token.kind_val]
    exact (ends_sign_iff l.op D).mpr hclosed

theorem lt_level_of_links {n : Nat} {x : List Token} (ls : List (Link n))
    (hx : ∀ op : BinaryOp, headKind x = op.sign → n + 1 < op.level) (op : BinaryOp)
    (h : headKind (linkTokens ls ++ x) = op.sign) : n < op.level := by
  cases ls with
  | nil => exact Nat.lt_of_succ_lt (hx op h)
  | cons l ls =>
    simp only [linkTokens, List.cons_append, headKind_cons, Token.kind_val] at h
    obtain rfl := BinaryOp.sign_injective h
    have hlevel := l.level
    omega

/-- No link begins with the token behind the whole chain. -/
theorem not_links_of_level {n : Nat} {x y : List Token} {l : Link n} {ls : List (Link n)}
    (h : linkTokens (l :: ls) ++ x = y)
    (hy : ∀ op : BinaryOp, headKind y = op.sign → n + 1 < op.level) : False := by
  have hhead : headKind y = l.op.sign := by
    simp [← h, linkTokens]
  have hlt := hy l.op hhead
  have hlevel := l.level
  omega

theorem links_unique {m n : Nat} (hdet : Determined m n) {x y : List Token}
    (hx : ∀ op : BinaryOp, headKind x = op.sign → n + 1 < op.level)
    (hy : ∀ op : BinaryOp, headKind y = op.sign → n + 1 < op.level) :
    ∀ ls ls' : List (Link n), (linkTokens ls).length ≤ m →
      linkTokens ls ++ x = linkTokens ls' ++ y → LinksEnd x ls → LinksEnd y ls' →
        ls = ls' ∧ x = y
  | [], [], _, h, _, _ => ⟨rfl, h⟩
  | [], l :: ls, _, h, _, _ => absurd (not_links_of_level h.symm hx) id
  | l :: ls, [], _, h, _, _ => absurd (not_links_of_level h hy) id
  | ⟨op, level, sign, right⟩ :: ls, ⟨op', level', sign', right'⟩ :: ls', hm, h, he, he' => by
    simp only [linkTokens, List.cons_append, List.append_assoc, List.cons.injEq] at h
    obtain ⟨hsign, h⟩ := h
    obtain rfl := BinaryOp.sign_injective (Token.kind_eq_of_val_eq hsign)
    obtain rfl := Subtype.ext hsign
    simp only [linkTokens, List.length_cons, List.length_append] at hm
    obtain ⟨rfl, hrest⟩ := hdet right right' _ _ (by omega) h he.1 he'.1
      ⟨he.2.1, lt_level_of_links ls hx⟩ ⟨he'.2.1, lt_level_of_links ls' hy⟩
    obtain ⟨rfl, hxy⟩ := links_unique hdet hx hy ls ls' (by omega) hrest he.2.2 he'.2.2
    exact ⟨rfl, hxy⟩

theorem determined_succ {m n : Nat} (hdet : Determined m n) : Determined m (n + 1) := by
  intro D E x y hm h hD hE hx hy
  obtain ⟨first, ls, hDls⟩ := exists_extend D []
  obtain ⟨first', ls', hEls⟩ := exists_extend E []
  obtain rfl : D = extend (tighter first) ls := hDls
  obtain rfl : E = extend (tighter first') ls' := hEls
  obtain ⟨hfirst, hends, hlinks⟩ := linksEnd_of_settled ls (tighter first) hD hx.1
  obtain ⟨hfirst', hends', hlinks'⟩ := linksEnd_of_settled ls' (tighter first') hE hy.1
  simp only [tokens_extend, tokens, List.append_assoc, List.length_append] at h hm
  obtain ⟨rfl, hrest⟩ := hdet first first' _ _ (by omega) h hfirst hfirst'
    ⟨hends, lt_level_of_links ls hx.2⟩ ⟨hends', lt_level_of_links ls' hy.2⟩
  obtain ⟨rfl, hxy⟩ := links_unique hdet hx.2 hy.2 ls ls' (by omega) hrest hlinks hlinks'
  exact ⟨rfl, hxy⟩

/-! ## Operands -/

theorem arguments_unique {m : Nat} (hdet : Determined m BinaryOp.topLevel) {x y : List Token}
    (hx : headKind x = .rightParen) (hy : headKind y = .rightParen) :
    ∀ A B : ExprDerivation .arguments, A.tokens.length ≤ m → A.tokens ++ x = B.tokens ++ y →
      A.Settled → B.Settled → A = B ∧ x = y
  | last arg, last arg', hm, h, hs, hs' => by
    obtain ⟨rfl, hxy⟩ := hdet arg arg' x y hm h hs hs' (stops_of_closes (by rw [hx]; rfl) _)
      (stops_of_closes (by rw [hy]; rfl) _)
    exact ⟨rfl, hxy⟩
  | last arg, more arg' comma rest, hm, h, hs, hs' => by
    simp only [tokens, List.append_assoc, List.cons_append] at h
    obtain ⟨_, rfl⟩ := hdet arg arg' x _ hm h hs hs'.1 (stops_of_closes (by rw [hx]; rfl) _)
      (stops_of_closes (by simp; rfl) _)
    simp at hx
  | more arg comma rest, last arg', hm, h, hs, hs' => by
    simp only [tokens, List.append_assoc, List.cons_append, List.length_append] at h hm
    obtain ⟨_, rfl⟩ := hdet arg arg' _ y (by omega) h hs.1 hs' (stops_of_closes (by simp; rfl) _)
      (stops_of_closes (by rw [hy]; rfl) _)
    simp at hy
  | more arg comma rest, more arg' comma' rest', hm, h, hs, hs' => by
    simp only [tokens, List.append_assoc, List.cons_append, List.length_append,
      List.length_cons] at h hm
    obtain ⟨rfl, hcons⟩ := hdet arg arg' _ _ (by omega) h hs.1 hs'.1
      (stops_of_closes (by simp; rfl) _) (stops_of_closes (by simp; rfl) _)
    obtain ⟨hcomma, hrest⟩ := List.cons.inj hcons
    obtain rfl := Subtype.ext hcomma
    obtain ⟨rfl, hxy⟩ := arguments_unique hdet hx hy rest rest' (by omega) hrest hs.2 hs'.2
    exact ⟨rfl, hxy⟩

/-- Arguments never begin where an empty list of them ends. -/
theorem arguments_ne_rightParen (A : ExprDerivation .arguments) (right : Token.Of .rightParen)
    (x y : List Token) : A.tokens ++ x ≠ right.val :: y := by
  intro h
  have hopens := A.opens_headKind x
  rw [h, headKind_cons, Token.kind_val] at hopens
  exact absurd hopens (by decide)

theorem determined_zero {m : Nat} (hdet : ∀ n, Determined m n) : Determined (m + 1) 0 := by
  intro D E x y hm h hD hE hx hy
  have htop := hdet BinaryOp.topLevel
  cases D <;> cases E <;>
    simp only [tokens, List.cons_append, List.append_assoc, List.nil_append, List.cons.injEq,
      List.length_cons, List.length_append, List.length_nil] at h hm
  case signed.signed op sign inner op' sign' inner' =>
    obtain rfl := UnaryOp.sign_injective (Token.kind_eq_of_val_eq h.1)
    obtain rfl := Subtype.ext h.1
    obtain ⟨rfl, hxy⟩ := hdet 0 inner inner' x y (by omega) h.2 hD hE
      ⟨hx.1, fun op _ => op.level_pos⟩ ⟨hy.1, fun op _ => op.level_pos⟩
    exact ⟨rfl, hxy⟩
  case parenthesized.parenthesized left inner right left' inner' right' =>
    obtain ⟨rfl, hrest⟩ := htop inner inner' _ _ (by omega) h.2 hD hE
      (stops_of_closes (by simp; rfl) _) (stops_of_closes (by simp; rfl) _)
    obtain ⟨hright, rfl⟩ := List.cons.inj hrest
    obtain rfl := Subtype.ext hright
    obtain rfl := Subtype.ext h.1
    exact ⟨rfl, rfl⟩
  case number.number token token' =>
    obtain rfl := Subtype.ext h.1
    exact ⟨rfl, h.2⟩
  case assign.assign name equal value name' equal' value' =>
    obtain ⟨hname, hequal, h⟩ := h
    obtain rfl := Subtype.ext hname
    obtain rfl := Subtype.ext hequal
    obtain ⟨rfl, hxy⟩ := htop value value' x y (by omega) h hD hE
      ⟨hx.1.1, fun op hop => absurd hop (hx.1.2 op)⟩ ⟨hy.1.1, fun op hop => absurd hop (hy.1.2 op)⟩
    exact ⟨rfl, hxy⟩
  case callEmpty.callEmpty name left right name' left' right' =>
    obtain ⟨hname, hleft, hright, rfl⟩ := h
    obtain rfl := Subtype.ext hname
    obtain rfl := Subtype.ext hleft
    obtain rfl := Subtype.ext hright
    exact ⟨rfl, rfl⟩
  case call.call name left args right name' left' args' right' =>
    obtain ⟨hname, hleft, h⟩ := h
    obtain ⟨rfl, hrest⟩ := arguments_unique htop (by simp) (by simp) args args' (by omega) h hD hE
    obtain ⟨hright, rfl⟩ := List.cons.inj hrest
    obtain rfl := Subtype.ext hname
    obtain rfl := Subtype.ext hleft
    obtain rfl := Subtype.ext hright
    exact ⟨rfl, rfl⟩
  case var.var name name' =>
    obtain rfl := Subtype.ext h.1
    exact ⟨rfl, h.2⟩
  case callEmpty.call => exact absurd h.2.2.symm (arguments_ne_rightParen _ _ _ _)
  case call.callEmpty => exact absurd h.2.2 (arguments_ne_rightParen _ _ _ _)
  -- A name alone is followed neither by what makes it an assignment nor a call.
  case var.assign => exact absurd (by simp [h.2]) hx.1.1
  case var.callEmpty => exact absurd (by simp [h.2]) hx.1.2
  case var.call => exact absurd (by simp [h.2]) hx.1.2
  case assign.var => exact absurd (by simp [← h.2]) hy.1.1
  case callEmpty.var => exact absurd (by simp [← h.2]) hy.1.2
  case call.var => exact absurd (by simp [← h.2]) hy.1.2
  case assign.callEmpty | assign.call | callEmpty.assign | call.assign =>
    exact absurd (Token.kind_eq_of_val_eq h.2.1) (by decide)
  case signed.parenthesized op _ _ _ _ _ | signed.number op _ _ _ | signed.assign op _ _ _ _ _
      | signed.callEmpty op _ _ _ _ _ | signed.call op _ _ _ _ _ _ | signed.var op _ _ _ =>
    exact absurd (Token.kind_eq_of_val_eq h.1) (by cases op <;> decide)
  case parenthesized.signed op _ _ | number.signed op _ _ | assign.signed op _ _
      | callEmpty.signed op _ _ | call.signed op _ _ | var.signed op _ _ =>
    exact absurd (Token.kind_eq_of_val_eq h.1) (by cases op <;> decide)
  all_goals exact absurd (Token.kind_eq_of_val_eq h.1) (by decide)

theorem determined : ∀ m n : Nat, Determined m n
  | 0, n => by
    intro D E x y hm
    have hpos := D.length_pos
    omega
  | m + 1, 0 => determined_zero (determined m)
  | m + 1, n + 1 => determined_succ (determined (m + 1) n)

/-- In front of tokens that close it, a settled expression is determined by its tokens. -/
theorem expression_unique {D E : ExpressionDerivation} {x y : List Token}
    (h : D.tokens ++ x = E.tokens ++ y) (hD : D.Settled) (hE : E.Settled)
    (hx : (headKind x).closes = true) (hy : (headKind y).closes = true) : D = E ∧ x = y :=
  determined D.tokens.length BinaryOp.topLevel D E x y (Nat.le_refl _) h hD hE
    (stops_of_closes hx D) (stops_of_closes hy E)

end ExprDerivation
end Grammar
end MiniCheck
