/-!
The kinds of token, their names in listings, and the reserved words.
-/

namespace Quill

set_option autoImplicit false

inductive Kind where
  | leftParen
  | rightParen
  | leftBrace
  | rightBrace
  | comma
  | dot
  | minus
  | plus
  | semicolon
  | colon
  | slash
  | star
  | bang
  | bangEqual
  | equal
  | equalEqual
  | greater
  | greaterEqual
  | less
  | lessEqual
  | ampersand
  | andAnd
  | pipe
  | orOr
  | identifier
  | string
  | number
  | classWord
  | ifWord
  | elseWord
  | whileWord
  | forWord
  | nilWord
  | returnWord
  | thisWord
  | baseWord
  | varWord
  | functionWord
  | trueWord
  | falseWord
  | endOfInput
deriving DecidableEq, Repr, Inhabited

namespace Kind

def name : Kind → String
  | leftParen => "LEFT_PAREN"
  | rightParen => "RIGHT_PAREN"
  | leftBrace => "LEFT_BRACE"
  | rightBrace => "RIGHT_BRACE"
  | comma => "COMMA"
  | dot => "DOT"
  | minus => "MINUS"
  | plus => "PLUS"
  | semicolon => "SEMICOLON"
  | colon => "COLON"
  | slash => "SLASH"
  | star => "STAR"
  | bang => "BANG"
  | bangEqual => "BANG_EQUAL"
  | equal => "EQUAL"
  | equalEqual => "EQUAL_EQUAL"
  | greater => "GREATER"
  | greaterEqual => "GREATER_EQUAL"
  | less => "LESS"
  | lessEqual => "LESS_EQUAL"
  | ampersand => "AMPERSAND"
  | andAnd => "AND"
  | pipe => "PIPE"
  | orOr => "OR"
  | identifier => "IDENTIFIER"
  | string => "STRING"
  | number => "NUMBER"
  | classWord => "CLASS"
  | ifWord => "IF"
  | elseWord => "ELSE"
  | whileWord => "WHILE"
  | forWord => "FOR"
  | nilWord => "NIL"
  | returnWord => "RETURN"
  | thisWord => "THIS"
  | baseWord => "BASE"
  | varWord => "VAR"
  | functionWord => "FUNCTION"
  | trueWord => "TRUE"
  | falseWord => "FALSE"
  | endOfInput => "EOF"

def all : List Kind :=
  [leftParen, rightParen, leftBrace, rightBrace, comma, dot, minus, plus, semicolon, colon,
    slash, star, bang, bangEqual, equal, equalEqual, greater, greaterEqual, less, lessEqual,
    ampersand, andAnd, pipe, orOr, identifier, string, number, classWord, ifWord, elseWord,
    whileWord, forWord, nilWord, returnWord, thisWord, baseWord, varWord, functionWord,
    trueWord, falseWord, endOfInput]

def ofName? (text : String) : Option Kind :=
  all.find? (fun kind => kind.name == text)

/-- The reserved words. No identifier is spelled like one of them. -/
def reservedWords : List (String × Kind) :=
  [("class", classWord), ("if", ifWord), ("else", elseWord), ("while", whileWord),
    ("for", forWord), ("nil", nilWord), ("return", returnWord), ("this", thisWord),
    ("base", baseWord), ("var", varWord), ("function", functionWord), ("true", trueWord),
    ("false", falseWord)]

def ofWord (word : String) : Kind :=
  (reservedWords.lookup word).getD identifier

end Kind

end Quill
