/-!
# Kinds of tokens

The kinds that a text can hold, and `eof`, which stands for the place where no
token is left. Every kind but names, numbers and `eof` is spelt in one way.
-/

namespace MiniCheck
namespace Token

inductive Kind
  | number
  | name
  | ifWord
  | elseWord
  | whileWord
  | forWord
  | intWord
  | floatWord
  | returnWord
  | printWord
  | voidWord
  | equalEqual
  | bangEqual
  | lessEqual
  | greaterEqual
  | andAnd
  | orOr
  | plus
  | minus
  | star
  | slash
  | percent
  | equal
  | bang
  | less
  | greater
  | leftParen
  | rightParen
  | leftBrace
  | rightBrace
  | semicolon
  | comma
  | eof
deriving DecidableEq, Repr

namespace Kind

/-- The name of a kind in listings and in messages. -/
def tag : Kind → String
  | number => "NUM"
  | name => "ID"
  | ifWord => "IF"
  | elseWord => "ELSE"
  | whileWord => "WHILE"
  | forWord => "FOR"
  | intWord => "INT"
  | floatWord => "FLOAT"
  | returnWord => "RETURN"
  | printWord => "PRINT"
  | voidWord => "VOID"
  | equalEqual => "OP_EQ"
  | bangEqual => "OP_NEQ"
  | lessEqual => "OP_LE"
  | greaterEqual => "OP_GE"
  | andAnd => "OP_AND"
  | orOr => "OP_OR"
  | plus => "OP_ADD"
  | minus => "OP_SUB"
  | star => "OP_MUL"
  | slash => "OP_DIV"
  | percent => "OP_MOD"
  | equal => "ASSIGN"
  | bang => "OP_NOT"
  | less => "OP_LT"
  | greater => "OP_GT"
  | leftParen => "LPAREN"
  | rightParen => "RPAREN"
  | leftBrace => "LBRACE"
  | rightBrace => "RBRACE"
  | semicolon => "SEMICOLON"
  | comma => "COMMA"
  | eof => "EOF"

def all : List Kind :=
  [number, name, ifWord, elseWord, whileWord, forWord, intWord, floatWord, returnWord, printWord,
    voidWord, equalEqual, bangEqual, lessEqual, greaterEqual, andAnd, orOr, plus, minus, star,
    slash, percent, equal, bang, less, greater, leftParen, rightParen, leftBrace, rightBrace,
    semicolon, comma, eof]

def ofTag? (t : String) : Option Kind := all.find? fun k => k.tag == t

/-- The one spelling of a keyword, an operator or a punctuation mark. -/
def spelling? : Kind → Option String
  | ifWord => some "if"
  | elseWord => some "else"
  | whileWord => some "while"
  | forWord => some "for"
  | intWord => some "int"
  | floatWord => some "float"
  | returnWord => some "return"
  | printWord => some "print"
  | voidWord => some "void"
  | equalEqual => some "=="
  | bangEqual => some "!="
  | lessEqual => some "<="
  | greaterEqual => some ">="
  | andAnd => some "&&"
  | orOr => some "||"
  | plus => some "+"
  | minus => some "-"
  | star => some "*"
  | slash => some "/"
  | percent => some "%"
  | equal => some "="
  | bang => some "!"
  | less => some "<"
  | greater => some ">"
  | leftParen => some "("
  | rightParen => some ")"
  | leftBrace => some "\x7b"
  | rightBrace => some "\x7d"
  | semicolon => some ";"
  | comma => some ","
  | number | name | eof => none

def keywords : List Kind :=
  [ifWord, elseWord, whileWord, forWord, intWord, floatWord, returnWord, printWord, voidWord]

def pairs : List Kind := [equalEqual, bangEqual, lessEqual, greaterEqual, andAnd, orOr]

def singles : List Kind :=
  [plus, minus, star, slash, percent, equal, bang, less, greater, leftParen, rightParen, leftBrace,
    rightBrace, semicolon, comma]

/-- The kinds with one spelling, in the order in which a reader tries them: a mark of
two characters hides its first one. -/
def spelt : List Kind := pairs ++ singles ++ keywords

/-- The words that begin a declaration. -/
def isType (k : Kind) : Bool := k = intWord || k = floatWord || k = voidWord

@[simp] theorem ofTag?_tag (k : Kind) : ofTag? k.tag = some k := by
  cases k <;> decide +kernel

theorem mem_spelt_iff {k : Kind} : k ∈ spelt ↔ k.spelling?.isSome := by
  cases k <;> decide

end Kind
end Token
end MiniCheck
