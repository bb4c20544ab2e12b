/-!
# Tokens

A token is a kind together with the text it stands for.  The text of a string token is what stands
between its quotes; every other token is spelled by its own text.
-/

namespace Monkey

/-- What a token is, apart from its text. -/
inductive Token.Kind where
  | illegal
  | eof
  | ident
  | int
  | string
  | assign
  | plus
  | minus
  | bang
  | asterisk
  | slash
  | lessThan
  | greaterThan
  | equal
  | notEqual
  | comma
  | semicolon
  | colon
  | lparen
  | rparen
  | lbrace
  | rbrace
  | lbracket
  | rbracket
  | fnWord
  | letWord
  | trueWord
  | falseWord
  | ifWord
  | elseWord
  | returnWord
  deriving DecidableEq

structure Token where
  kind : Token.Kind
  literal : String
  deriving DecidableEq

namespace Token

/-- The token that stands for the end of the text. -/
def endOfText : Token := ⟨.eof, ""⟩

namespace Kind

/-- The name under which a kind appears in messages. -/
def name : Kind → String
  | illegal => "ILLEGAL"
  | eof => "EOF"
  | ident => "IDENT"
  | int => "INT"
  | string => "STRING"
  | assign => "="
  | plus => "+"
  | minus => "-"
  | bang => "!"
  | asterisk => "*"
  | slash => "/"
  | lessThan => "<"
  | greaterThan => ">"
  | equal => "=="
  | notEqual => "!="
  | comma => ","
  | semicolon => ";"
  | colon => ":"
  | lparen => "("
  | rparen => ")"
  | lbrace => "\x7b"
  | rbrace => "\x7d"
  | lbracket => "["
  | rbracket => "]"
  | fnWord => "FUNCTION"
  | letWord => "LET"
  | trueWord => "TRUE"
  | falseWord => "FALSE"
  | ifWord => "IF"
  | elseWord => "ELSE"
  | returnWord => "RETURN"

end Kind

/-- The reserved words, in dictionary order, with the kind of token each one makes. -/
def reserved : List (String × Kind) :=
  [("else", .elseWord), ("false", .falseWord), ("fn", .fnWord), ("if", .ifWord),
   ("let", .letWord), ("return", .returnWord), ("true", .trueWord)]

/-- The reserved words in dictionary order. -/
def keywords : List String := reserved.map Prod.fst

/-- A word is a keyword exactly when it is reserved; every other word is an identifier. -/
def Kind.ofWord (word : String) : Kind := (reserved.lookup word).getD .ident

/-- The kind of a token that is a single character. -/
def Kind.ofSymbol? : Char → Option Kind
  | '=' => some .assign
  | '!' => some .bang
  | '+' => some .plus
  | '-' => some .minus
  | '*' => some .asterisk
  | '/' => some .slash
  | '<' => some .lessThan
  | '>' => some .greaterThan
  | ',' => some .comma
  | ';' => some .semicolon
  | ':' => some .colon
  | '(' => some .lparen
  | ')' => some .rparen
  | '\x7b' => some .lbrace
  | '\x7d' => some .rbrace
  | '[' => some .lbracket
  | ']' => some .rbracket
  | _ => none

end Token

end Monkey
