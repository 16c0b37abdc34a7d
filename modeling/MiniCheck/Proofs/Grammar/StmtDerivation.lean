import MiniCheck.Grammar.Program
import MiniCheck.Proofs.Grammar.ExprDerivation

/-!
# Derivations of programs

* `program ::= declaration*`
* `declaration ::= type name "(" parameters? ")" "{" items "}" | type declarators ";"`
* `declarators ::= name ("=" expression)? ("," name ("=" expression)?)*`
* `parameters ::= type name ("," type name)*`
* `items ::= statement*`
* `statement ::= declaration | ";" | command`
* `command ::= "{" items "}" | "if" "(" expression ")" statement ("else" statement)?`
  `| "while" "(" expression ")" statement`
  `| "for" "(" expression? ";" expression? ";" expression? ")" statement`
  `| "return" expression? ";" | "print" "(" expression ")" ";" | expression ";"`

A statement means one thing in a list, where a declaration stands for all that it
declares and a semicolon for nothing, and another as the body of a branch or a
loop, where one tree has to stand. The grammar leaves open to which `if` an `else`
belongs. A derivation is settled if that is the nearest one.
-/

namespace MiniCheck

namespace BaseType

/-- The kind of the tokens that stand for a type. -/
def word : BaseType → Token.Kind
  | int => .intWord
  | float => .floatWord
  | void => .voidWord

@[simp] theorem isType_word (b : BaseType) : b.word.isType = true := by
  cases b <;> rfl

@[simp] theorem word_ne_eof (b : BaseType) : b.word ≠ .eof := by
  cases b <;> decide

theorem exists_word {k : Token.Kind} (h : k.isType = true) : ∃ b : BaseType, b.word = k := by
  cases k <;> first
    | exact ⟨.int, rfl⟩
    | exact ⟨.float, rfl⟩
    | exact ⟨.void, rfl⟩
    | exact absurd h (by decide)

end BaseType

namespace Grammar

/-- A type as it is written. -/
structure TypeWord where
  type : BaseType
  token : Token.Of type.word

inductive Parameters
  | last (type : TypeWord) (name : Token.Of .name)
  | more (type : TypeWord) (name : Token.Of .name) (comma : Token.Of .comma) (rest : Parameters)

namespace Parameters

def tokens : Parameters → List Token
  | last type name => [type.token.val, name.val]
  | more type name comma rest => type.token.val :: name.val :: comma.val :: rest.tokens

def tree : Parameters → List Param
  | last type name => [⟨name.val.lexeme, type.type, name.val.location⟩]
  | more type name _ rest => ⟨name.val.lexeme, type.type, name.val.location⟩ :: rest.tree

theorem kind_ne_eof : ∀ P : Parameters, ∀ t ∈ P.tokens, t.kind ≠ .eof
  | last type name => by simp [tokens]
  | more type name comma rest => by
    simpa [tokens] using kind_ne_eof rest

end Parameters

/-- Tokens and tree of parameters that may be missing. -/
def parameterTokens (params : Option Parameters) : List Token :=
  (params.map Parameters.tokens).getD []

def parameterTree (params : Option Parameters) : List Param :=
  (params.map Parameters.tree).getD []

theorem parameterTokens_kind_ne_eof (P : Option Parameters) :
    ∀ t ∈ parameterTokens P, t.kind ≠ .eof := by
  cases P with
  | none => simp [parameterTokens]
  | some P => exact P.kind_ne_eof

/-- What stands behind the name of a declared variable. -/
inductive Initializer
  | absent
  | given (equal : Token.Of .equal) (value : ExpressionDerivation)

namespace Initializer

def tokens : Initializer → List Token
  | absent => []
  | given equal value => equal.val :: value.tokens

def size : Initializer → Nat
  | absent => 0
  | given _ value => value.size

def tree : Initializer → Nat → Option Expr
  | absent, _ => none
  | given _ value, i => some (value.tree i)

def nesting : Initializer → Nat
  | absent => 0
  | given _ value => value.nesting

def Settled : Initializer → Prop
  | absent => True
  | given _ value => value.Settled

theorem kind_ne_eof (I : Initializer) : ∀ t ∈ I.tokens, t.kind ≠ .eof := by
  cases I with
  | absent => simp [tokens]
  | given equal value => simpa [tokens] using value.kind_ne_eof

end Initializer

inductive Declarators
  | last (name : Token.Of .name) (init : Initializer)
  | more (name : Token.Of .name) (init : Initializer) (comma : Token.Of .comma)
      (rest : Declarators)

namespace Declarators

def tokens : Declarators → List Token
  | last name init => name.val :: init.tokens
  | more name init comma rest => name.val :: (init.tokens ++ comma.val :: rest.tokens)

def size : Declarators → Nat
  | last _ init => init.size
  | more _ init _ rest => init.size + rest.size

/-- One tree for each name, all of one type. -/
def tree (type : BaseType) : Declarators → Nat → List Stmt
  | last name init, i => [.declareVar name.val.lexeme type (init.tree i) name.val.location]
  | more name init _ rest, i =>
    .declareVar name.val.lexeme type (init.tree i) name.val.location ::
      rest.tree type (i + init.size)

def nesting : Declarators → Nat
  | last _ init => init.nesting
  | more _ init _ rest => max init.nesting rest.nesting

def Settled : Declarators → Prop
  | last _ init => init.Settled
  | more _ init _ rest => init.Settled ∧ rest.Settled

theorem kind_ne_eof : ∀ D : Declarators, ∀ t ∈ D.tokens, t.kind ≠ .eof
  | last name init => by simpa [tokens] using init.kind_ne_eof
  | more name init comma rest => by
    simpa [tokens, or_imp, forall_and] using ⟨init.kind_ne_eof, kind_ne_eof rest⟩

end Declarators

/-- An expression, or nothing. -/
inductive Clause
  | omitted
  | given (value : ExpressionDerivation)

namespace Clause

def tokens : Clause → List Token
  | omitted => []
  | given value => value.tokens

/-- A clause that is omitted has a number too. -/
def size : Clause → Nat
  | omitted => 1
  | given value => value.size

/-- The tree of a clause that ends at `p`. -/
def tree (p : Location) : Clause → Nat → Expr
  | omitted, i => .omitted ⟨i, p⟩
  | given value, i => value.tree i

def nesting : Clause → Nat
  | omitted => 0
  | given value => value.nesting

def Settled : Clause → Prop
  | omitted => True
  | given value => value.Settled

theorem kind_ne_eof (C : Clause) : ∀ t ∈ C.tokens, t.kind ≠ .eof := by
  cases C with
  | omitted => simp [tokens]
  | given value => exact value.kind_ne_eof

end Clause

/-- What a part of a program is derived from. -/
inductive StmtRule
  | statement
  | command
  | items
  | declaration
  | program

namespace StmtRule

abbrev Result : StmtRule → Type
  | statement | command => Stmt
  | items | declaration | program => List Stmt

end StmtRule

inductive StmtDerivation : StmtRule → Type
  | declared (declaration : StmtDerivation .declaration) : StmtDerivation .statement
  | empty (semicolon : Token.Of .semicolon) : StmtDerivation .statement
  | command (inner : StmtDerivation .command) : StmtDerivation .statement
  | block (left : Token.Of .leftBrace) (body : StmtDerivation .items)
      (right : Token.Of .rightBrace) : StmtDerivation .command
  | branch (word : Token.Of .ifWord) (left : Token.Of .leftParen)
      (condition : ExpressionDerivation) (right : Token.Of .rightParen)
      (thenBody : StmtDerivation .statement) : StmtDerivation .command
  | branchElse (word : Token.Of .ifWord) (left : Token.Of .leftParen)
      (condition : ExpressionDerivation) (right : Token.Of .rightParen)
      (thenBody : StmtDerivation .statement) (elseWord : Token.Of .elseWord)
      (elseBody : StmtDerivation .statement) : StmtDerivation .command
  | whileLoop (word : Token.Of .whileWord) (left : Token.Of .leftParen)
      (condition : ExpressionDerivation) (right : Token.Of .rightParen)
      (body : StmtDerivation .statement) : StmtDerivation .command
  | forLoop (word : Token.Of .forWord) (left : Token.Of .leftParen) (init : Clause)
      (first : Token.Of .semicolon) (condition : Clause) (second : Token.Of .semicolon)
      (update : Clause) (right : Token.Of .rightParen) (body : StmtDerivation .statement) :
      StmtDerivation .command
  | ret (word : Token.Of .returnWord) (value : Clause) (semicolon : Token.Of .semicolon) :
      StmtDerivation .command
  | print (word : Token.Of .printWord) (left : Token.Of .leftParen)
      (value : ExpressionDerivation) (right : Token.Of .rightParen)
      (semicolon : Token.Of .semicolon) : StmtDerivation .command
  | expr (value : ExpressionDerivation) (semicolon : Token.Of .semicolon) :
      StmtDerivation .command
  | nil : StmtDerivation .items
  | cons (first : StmtDerivation .statement) (rest : StmtDerivation .items) :
      StmtDerivation .items
  | function (type : TypeWord) (name : Token.Of .name) (left : Token.Of .leftParen)
      (params : Option Parameters) (right : Token.Of .rightParen)
      (leftBrace : Token.Of .leftBrace) (body : StmtDerivation .items)
      (rightBrace : Token.Of .rightBrace) : StmtDerivation .declaration
  | vars (type : TypeWord) (names : Declarators) (semicolon : Token.Of .semicolon) :
      StmtDerivation .declaration
  | done : StmtDerivation .program
  | next (first : StmtDerivation .declaration) (rest : StmtDerivation .program) :
      StmtDerivation .program

namespace StmtDerivation

/-- The tokens that are derived. -/
def tokens : {r : StmtRule} → StmtDerivation r → List Token
  | _, declared declaration => declaration.tokens
  | _, empty semicolon => [semicolon.val]
  | _, command inner => inner.tokens
  | _, block left body right => left.val :: (body.tokens ++ [right.val])
  | _, branch word left condition right thenBody =>
    word.val :: left.val :: (condition.tokens ++ right.val :: thenBody.tokens)
  | _, branchElse word left condition right thenBody elseWord elseBody =>
    word.val :: left.val ::
      (condition.tokens ++ right.val :: (thenBody.tokens ++ elseWord.val :: elseBody.tokens))
  | _, whileLoop word left condition right body =>
    word.val :: left.val :: (condition.tokens ++ right.val :: body.tokens)
  | _, forLoop word left init first condition second update right body =>
    word.val :: left.val :: (init.tokens ++ first.val :: (condition.tokens ++ second.val ::
      (update.tokens ++ right.val :: body.tokens)))
  | _, ret word value semicolon => word.val :: (value.tokens ++ [semicolon.val])
  | _, print word left value right semicolon =>
    word.val :: left.val :: (value.tokens ++ [right.val, semicolon.val])
  | _, expr value semicolon => value.tokens ++ [semicolon.val]
  | _, nil => []
  | _, cons first rest => first.tokens ++ rest.tokens
  | _, function type name left params right leftBrace body rightBrace =>
    type.token.val :: name.val :: left.val :: (parameterTokens params ++ right.val ::
      leftBrace.val :: (body.tokens ++ [rightBrace.val]))
  | _, vars type names semicolon =>
    type.token.val :: (names.tokens ++ [semicolon.val])
  | _, done => []
  | _, next first rest => first.tokens ++ rest.tokens

/-- How many expressions the tree holds. A semicolon alone holds one, unless it stands in
a list. -/
def size : {r : StmtRule} → StmtDerivation r → Nat
  | _, declared declaration => declaration.size
  | _, empty _ => 1
  | _, command inner => inner.size
  | _, block _ body _ => body.size
  | _, branch _ _ condition _ thenBody => condition.size + thenBody.size
  | _, branchElse _ _ condition _ thenBody _ elseBody =>
    condition.size + thenBody.size + elseBody.size
  | _, whileLoop _ _ condition _ body => condition.size + body.size
  | _, forLoop _ _ init _ condition _ update _ body =>
    init.size + condition.size + update.size + body.size
  | _, ret _ value _ => value.size
  | _, print _ _ value _ _ => value.size
  | _, expr value _ => value.size
  | _, nil => 0
  | _, cons (declared declaration) rest => declaration.size + rest.size
  | _, cons (empty _) rest => rest.size
  | _, cons (command inner) rest => inner.size + rest.size
  | _, function _ _ _ _ _ _ body _ => body.size
  | _, vars _ names _ => names.size
  | _, done => 0
  | _, next first rest => first.size + rest.size

/-- Where the derived tokens begin. -/
def location {r : StmtRule} (d : StmtDerivation r) : Location :=
  (d.tokens.head?.map Token.location).getD Location.first

/-- The tree that a derivation stands for, with its expressions numbered from `i` as
they are read. -/
def tree : {r : StmtRule} → StmtDerivation r → Nat → r.Result
  | _, declared declaration, i => Grammar.declared declaration.location (declaration.tree i)
  | _, empty semicolon, i =>
    .expr (.omitted ⟨i, semicolon.val.location⟩) semicolon.val.location
  | _, command inner, i => inner.tree i
  | _, block left body _, i => .block (body.tree i) left.val.location
  | _, branch word _ condition _ thenBody, i =>
    .branch (condition.tree i) (thenBody.tree (i + condition.size)) none word.val.location
  | _, branchElse word _ condition _ thenBody _ elseBody, i =>
    .branch (condition.tree i) (thenBody.tree (i + condition.size))
      (some (elseBody.tree (i + condition.size + thenBody.size))) word.val.location
  | _, whileLoop word _ condition _ body, i =>
    .whileLoop (condition.tree i) (body.tree (i + condition.size)) word.val.location
  | _, forLoop word _ init first condition second update right body, i =>
    .forLoop (init.tree first.val.location i)
      (condition.tree second.val.location (i + init.size))
      (update.tree right.val.location (i + init.size + condition.size))
      (body.tree (i + init.size + condition.size + update.size)) word.val.location
  | _, ret word value semicolon, i =>
    .ret (value.tree semicolon.val.location i) word.val.location
  | _, print word _ value _ _, i => .print (value.tree i) word.val.location
  | _, expr value _, i => .expr (value.tree i) value.location
  | _, nil, _ => []
  | _, cons (declared declaration) rest, i =>
    declaration.tree i ++ rest.tree (i + declaration.size)
  | _, cons (empty _) rest, i => rest.tree i
  | _, cons (command inner) rest, i => inner.tree i :: rest.tree (i + inner.size)
  | _, function type name _ params _ _ body _, i =>
    [.declareFun name.val.lexeme type.type (parameterTree params) (body.tree i) name.val.location]
  | _, vars type names _, i => names.tree type.type i
  | _, done, _ => []
  | _, next first rest, i => first.tree i ++ rest.tree (i + first.size)

/-- How many nesting levels are open at once at most: one for each statement, unless it
is a declaration or a semicolon in a list, one for each body of a function, and those of
expressions. -/
def nesting : {r : StmtRule} → StmtDerivation r → Nat
  | _, declared declaration => declaration.nesting + 1
  | _, empty _ => 1
  | _, command inner => inner.nesting + 1
  | _, block _ body _ => body.nesting
  | _, branch _ _ condition _ thenBody => max condition.nesting thenBody.nesting
  | _, branchElse _ _ condition _ thenBody _ elseBody =>
    max condition.nesting (max thenBody.nesting elseBody.nesting)
  | _, whileLoop _ _ condition _ body => max condition.nesting body.nesting
  | _, forLoop _ _ init _ condition _ update _ body =>
    max (max init.nesting condition.nesting) (max update.nesting body.nesting)
  | _, ret _ value _ => value.nesting
  | _, print _ _ value _ _ => value.nesting
  | _, expr value _ => value.nesting
  | _, nil => 0
  | _, cons (declared declaration) rest => max declaration.nesting rest.nesting
  | _, cons (empty _) rest => rest.nesting
  | _, cons (command inner) rest => max (inner.nesting + 1) rest.nesting
  | _, function _ _ _ _ _ _ body _ => body.nesting + 1
  | _, vars _ names _ => names.nesting
  | _, done => 0
  | _, next first rest => max first.nesting rest.nesting

/-- Whether the last tokens belong to an `if` that has no `else`, to which an `else` that
follows could therefore belong. -/
def dangles : {r : StmtRule} → StmtDerivation r → Bool
  | _, command inner => inner.dangles
  | _, branch _ _ _ _ _ => true
  | _, branchElse _ _ _ _ _ _ elseBody => elseBody.dangles
  | _, whileLoop _ _ _ _ body => body.dangles
  | _, forLoop _ _ _ _ _ _ _ _ body => body.dangles
  | _, declared _ | _, empty _ | _, block _ _ _ | _, ret _ _ _ | _, print _ _ _ _ _ | _, expr _ _
  | _, nil | _, cons _ _ | _, function _ _ _ _ _ _ _ _ | _, vars _ _ _ | _, done
  | _, next _ _ => false

/-- Every `else` belongs to the nearest `if` that has none, and the right side of every
assignment takes in the operators that follow. -/
def Settled : {r : StmtRule} → StmtDerivation r → Prop
  | _, declared declaration => declaration.Settled
  | _, command inner => inner.Settled
  | _, block _ body _ => body.Settled
  | _, branch _ _ condition _ thenBody => condition.Settled ∧ thenBody.Settled
  | _, branchElse _ _ condition _ thenBody _ elseBody =>
    condition.Settled ∧ thenBody.Settled ∧ thenBody.dangles = false ∧ elseBody.Settled
  | _, whileLoop _ _ condition _ body => condition.Settled ∧ body.Settled
  | _, forLoop _ _ init _ condition _ update _ body =>
    init.Settled ∧ condition.Settled ∧ update.Settled ∧ body.Settled
  | _, ret _ value _ => value.Settled
  | _, print _ _ value _ _ => value.Settled
  | _, expr value _ => value.Settled
  | _, cons first rest => first.Settled ∧ rest.Settled
  | _, function _ _ _ _ _ _ body _ => body.Settled
  | _, vars _ names _ => names.Settled
  | _, next first rest => first.Settled ∧ rest.Settled
  | _, empty _ | _, nil | _, done => True

theorem kind_ne_eof : ∀ {r : StmtRule} (D : StmtDerivation r),
    ∀ t ∈ D.tokens, t.kind ≠ .eof
  | _, declared declaration => kind_ne_eof declaration
  | _, empty semicolon => by simp [tokens]
  | _, command inner => kind_ne_eof inner
  | _, block left body right => by
    simpa [tokens, or_imp, forall_and] using kind_ne_eof body
  | _, branch word left condition right thenBody => by
    simpa [tokens, or_imp, forall_and] using ⟨condition.kind_ne_eof, kind_ne_eof thenBody⟩
  | _, branchElse word left condition right thenBody elseWord elseBody => by
    simpa [tokens, or_imp, forall_and] using
      ⟨condition.kind_ne_eof, kind_ne_eof thenBody, kind_ne_eof elseBody⟩
  | _, whileLoop word left condition right body => by
    simpa [tokens, or_imp, forall_and] using ⟨condition.kind_ne_eof, kind_ne_eof body⟩
  | _, forLoop word left init first condition second update right body => by
    simpa [tokens, or_imp, forall_and] using
      ⟨init.kind_ne_eof, condition.kind_ne_eof, update.kind_ne_eof, kind_ne_eof body⟩
  | _, ret word value semicolon => by
    simpa [tokens, or_imp, forall_and] using value.kind_ne_eof
  | _, print word left value right semicolon => by
    simpa [tokens, or_imp, forall_and] using value.kind_ne_eof
  | _, expr value semicolon => by
    simpa [tokens, or_imp, forall_and] using value.kind_ne_eof
  | _, nil => by simp [tokens]
  | _, cons first rest => by
    simpa [tokens, or_imp, forall_and] using ⟨kind_ne_eof first, kind_ne_eof rest⟩
  | _, function type name left params right leftBrace body rightBrace => by
    simpa [tokens, or_imp, forall_and] using
      ⟨parameterTokens_kind_ne_eof params, kind_ne_eof body⟩
  | _, vars type names semicolon => by
    simpa [tokens, or_imp, forall_and] using names.kind_ne_eof
  | _, done => by simp [tokens]
  | _, next first rest => by
    simpa [tokens, or_imp, forall_and] using ⟨kind_ne_eof first, kind_ne_eof rest⟩

end StmtDerivation
end Grammar
end MiniCheck
