import MiniCheck.Grammar.Expr

/-!
# Derivations of expressions

The grammar has one rule for each level of operations, from operands at level
zero to the loosest operators, and one for lists of arguments:

* `operation (n + 1) ::= operation n | operation (n + 1) operator operation n`
* `operation 0 ::= sign operation 0 | "(" expression ")" | number`
  `| name "=" expression | name "(" arguments? ")" | name`
* `arguments ::= expression ("," expression)*`

It is ambiguous: the right side of an assignment may end before an operator or
take it in. A derivation is settled if it always takes it in.
-/

namespace MiniCheck

namespace Token

/-- The tokens of one kind. -/
abbrev Of (k : Kind) := { t : Token // t.kind = k }

@[simp] theorem kind_val {k : Kind} (t : Of k) : t.val.kind = k := t.property

theorem kind_eq_of_val_eq {j k : Kind} {s : Of j} {t : Of k} (h : s.val = t.val) : j = k := by
  rw [← s.property, ← t.property, h]

end Token

namespace BinaryOp

/-- The kind of the tokens that stand for an operator. -/
def sign : BinaryOp → Token.Kind
  | add => .plus
  | sub => .minus
  | mul => .star
  | div => .slash
  | mod => .percent
  | eq => .equalEqual
  | ne => .bangEqual
  | lt => .less
  | le => .lessEqual
  | gt => .greater
  | ge => .greaterEqual
  | and => .andAnd
  | or => .orOr

theorem ofKind?_eq_some_iff {k : Token.Kind} {op : BinaryOp} :
    ofKind? k = some op ↔ k = op.sign := by
  cases k <;> cases op <;> decide

@[simp] theorem sign_ne_eof (op : BinaryOp) : op.sign ≠ .eof := by
  cases op <;> decide

theorem sign_injective {op other : BinaryOp} (h : op.sign = other.sign) : op = other := by
  have hk := ofKind?_eq_some_iff.mpr h
  rw [ofKind?_eq_some_iff.mpr rfl] at hk
  exact Option.some.inj hk

theorem atLevel?_eq_some_iff {n : Nat} {k : Token.Kind} {op : BinaryOp} :
    atLevel? n k = some op ↔ k = op.sign ∧ op.level = n := by
  simp [atLevel?, Option.filter_eq_some_iff, ofKind?_eq_some_iff]

theorem atLevel?_eq_none_iff {n : Nat} {k : Token.Kind} :
    atLevel? n k = none ↔ ∀ op : BinaryOp, k = op.sign → op.level ≠ n := by
  rw [Option.eq_none_iff_forall_not_mem]
  constructor
  · intro h op hk hn
    exact h op (atLevel?_eq_some_iff.mpr ⟨hk, hn⟩)
  · intro h op hop
    obtain ⟨hk, hn⟩ := atLevel?_eq_some_iff.mp hop
    exact h op hk hn

end BinaryOp

namespace UnaryOp

/-- The kind of the tokens that stand for a sign. -/
def sign : UnaryOp → Token.Kind
  | neg => .minus
  | not => .bang

@[simp] theorem sign_ne_eof (op : UnaryOp) : op.sign ≠ .eof := by
  cases op <;> decide

theorem sign_injective {op other : UnaryOp} (h : op.sign = other.sign) : op = other := by
  cases op <;> cases other <;> first | rfl | exact absurd h (by decide)

end UnaryOp

namespace Grammar

/-- What an expression is derived from. -/
inductive ExprRule
  | operation (level : Nat)
  | arguments

namespace ExprRule

abbrev Result : ExprRule → Type
  | operation _ => Expr
  | arguments => List Expr

abbrev expression : ExprRule := operation BinaryOp.topLevel

end ExprRule

inductive ExprDerivation : ExprRule → Type
  | signed (op : UnaryOp) (sign : Token.Of op.sign) (operand : ExprDerivation (.operation 0)) :
      ExprDerivation (.operation 0)
  | parenthesized (left : Token.Of .leftParen) (inner : ExprDerivation .expression)
      (right : Token.Of .rightParen) : ExprDerivation (.operation 0)
  | number (token : Token.Of .number) : ExprDerivation (.operation 0)
  | assign (name : Token.Of .name) (equal : Token.Of .equal)
      (value : ExprDerivation .expression) : ExprDerivation (.operation 0)
  | callEmpty (name : Token.Of .name) (left : Token.Of .leftParen)
      (right : Token.Of .rightParen) : ExprDerivation (.operation 0)
  | call (name : Token.Of .name) (left : Token.Of .leftParen) (args : ExprDerivation .arguments)
      (right : Token.Of .rightParen) : ExprDerivation (.operation 0)
  | var (name : Token.Of .name) : ExprDerivation (.operation 0)
  | tighter {n : Nat} (inner : ExprDerivation (.operation n)) : ExprDerivation (.operation (n + 1))
  | binary {n : Nat} (left : ExprDerivation (.operation (n + 1))) (op : BinaryOp)
      (level : op.level = n + 1) (sign : Token.Of op.sign)
      (right : ExprDerivation (.operation n)) : ExprDerivation (.operation (n + 1))
  | last (arg : ExprDerivation .expression) : ExprDerivation .arguments
  | more (arg : ExprDerivation .expression) (comma : Token.Of .comma)
      (rest : ExprDerivation .arguments) : ExprDerivation .arguments

abbrev ExpressionDerivation := ExprDerivation .expression

namespace ExprDerivation

/-- The tokens that are derived. -/
def tokens : {r : ExprRule} → ExprDerivation r → List Token
  | _, signed _ sign operand => sign.val :: operand.tokens
  | _, parenthesized left inner right => left.val :: (inner.tokens ++ [right.val])
  | _, number token => [token.val]
  | _, assign name equal value => name.val :: equal.val :: value.tokens
  | _, callEmpty name left right => [name.val, left.val, right.val]
  | _, call name left args right => name.val :: left.val :: (args.tokens ++ [right.val])
  | _, var name => [name.val]
  | _, tighter inner => inner.tokens
  | _, binary left _ _ sign right => left.tokens ++ sign.val :: right.tokens
  | _, last arg => arg.tokens
  | _, more arg comma rest => arg.tokens ++ comma.val :: rest.tokens

/-- How many expressions the tree holds. -/
def size : {r : ExprRule} → ExprDerivation r → Nat
  | _, signed _ _ operand => operand.size + 1
  | _, parenthesized _ inner _ => inner.size
  | _, number _ => 1
  | _, assign _ _ value => value.size + 1
  | _, callEmpty _ _ _ => 1
  | _, call _ _ args _ => args.size + 1
  | _, var _ => 1
  | _, tighter inner => inner.size
  | _, binary left _ _ _ right => left.size + right.size + 1
  | _, last arg => arg.size
  | _, more arg _ rest => arg.size + rest.size

/-- The tree that a derivation stands for. Its expressions are numbered from `i`, each
after those inside it. -/
def tree : {r : ExprRule} → ExprDerivation r → Nat → r.Result
  | _, signed op sign operand, i =>
    .unary op (operand.tree i) ⟨i + operand.size, sign.val.location⟩
  | _, parenthesized _ inner _, i => inner.tree i
  | _, number token, i => .number token.val.lexeme ⟨i, token.val.location⟩
  | _, assign name _ value, i =>
    .assign name.val.lexeme (value.tree i) ⟨i + value.size, name.val.location⟩
  | _, callEmpty name _ _, i => .call name.val.lexeme [] ⟨i, name.val.location⟩
  | _, call name _ args _, i =>
    .call name.val.lexeme (args.tree i) ⟨i + args.size, name.val.location⟩
  | _, var name, i => .var name.val.lexeme ⟨i, name.val.location⟩
  | _, tighter inner, i => inner.tree i
  | _, binary left op _ sign right, i =>
    .binary op (left.tree i) (right.tree (i + left.size))
      ⟨i + left.size + right.size, sign.val.location⟩
  | _, last arg, i => [arg.tree i]
  | _, more arg _ rest, i => arg.tree i :: rest.tree (i + arg.size)

/-- How many nesting levels are open at once at most: one for each operand, and a sign
makes an operand of what stands behind it. -/
def nesting : {r : ExprRule} → ExprDerivation r → Nat
  | _, signed _ _ operand => operand.nesting + 1
  | _, parenthesized _ inner _ => inner.nesting + 1
  | _, number _ => 1
  | _, assign _ _ value => value.nesting + 1
  | _, callEmpty _ _ _ => 1
  | _, call _ _ args _ => args.nesting + 1
  | _, var _ => 1
  | _, tighter inner => inner.nesting
  | _, binary left _ _ _ right => max left.nesting right.nesting
  | _, last arg => arg.nesting
  | _, more arg _ rest => max arg.nesting rest.nesting

/-- Whether the last token belongs to the right side of an assignment, which could
therefore take in an operator that follows. -/
def isOpen : {r : ExprRule} → ExprDerivation r → Bool
  | _, signed _ _ operand => operand.isOpen
  | _, assign _ _ _ => true
  | _, tighter inner => inner.isOpen
  | _, binary _ _ _ _ right => right.isOpen
  | _, last arg => arg.isOpen
  | _, more _ _ rest => rest.isOpen
  | _, parenthesized _ _ _ | _, number _ | _, callEmpty _ _ _ | _, call _ _ _ _ | _, var _ => false

/-- No operator follows the right side of an assignment, which has taken it in. -/
def Settled : {r : ExprRule} → ExprDerivation r → Prop
  | _, signed _ _ operand => operand.Settled
  | _, parenthesized _ inner _ => inner.Settled
  | _, assign _ _ value => value.Settled
  | _, call _ _ args _ => args.Settled
  | _, tighter inner => inner.Settled
  | _, binary left _ _ _ right => left.Settled ∧ left.isOpen = false ∧ right.Settled
  | _, last arg => arg.Settled
  | _, more arg _ rest => arg.Settled ∧ rest.Settled
  | _, number _ | _, callEmpty _ _ _ | _, var _ => True

/-- Where the derived tokens begin. -/
def location {r : ExprRule} (d : ExprDerivation r) : Location :=
  (d.tokens.head?.map Token.location).getD Location.first

/-- No token of a derivation marks an end of the tokens. -/
theorem kind_ne_eof : ∀ {r : ExprRule} (D : ExprDerivation r),
    ∀ t ∈ D.tokens, t.kind ≠ .eof
  | _, signed op sign operand => by simpa [tokens] using kind_ne_eof operand
  | _, parenthesized left inner right => by
    simpa [tokens, or_imp, forall_and] using kind_ne_eof inner
  | _, number token => by simp [tokens]
  | _, assign name equal value => by simpa [tokens] using kind_ne_eof value
  | _, callEmpty name left right => by simp [tokens]
  | _, call name left args right => by
    simpa [tokens, or_imp, forall_and] using kind_ne_eof args
  | _, var name => by simp [tokens]
  | _, tighter inner => kind_ne_eof inner
  | _, binary left op _ sign right => by
    simpa [tokens, or_imp, forall_and] using ⟨kind_ne_eof left, kind_ne_eof right⟩
  | _, last arg => kind_ne_eof arg
  | _, more arg comma rest => by
    simpa [tokens, or_imp, forall_and] using ⟨kind_ne_eof arg, kind_ne_eof rest⟩

end ExprDerivation
end Grammar
end MiniCheck
