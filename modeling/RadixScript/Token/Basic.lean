import RadixScript.Literal

/-!
# Tokens

A token is a lexeme of the program text with its kind, its value if it is a literal, and the place
where it stands: its line, and the offsets of its first character and of the character after it.
-/

namespace RadixScript

/-- The kind of a token. -/
inductive Kind where
  | leftParen | rightParen | leftBrace | rightBrace | comma | dot | minus | plus | semicolon | star
  | percent | slash
  | bang | equal | less | greater | bitwiseOr | bitwiseAnd
  | bangEqual | equalEqual | lessEqual | greaterEqual | logicalOr | logicalAnd
  | doWord | elseWord | falseWord | ifWord | letWord | nullWord | returnWord | trueWord
  | namespaceWord
  | boolType | hexType | binType | charType | stringType | intType | floatType
  | intLiteral | floatLiteral | hexLiteral | binLiteral | stringLiteral | charLiteral
  | identifier
  | endOfInput
deriving DecidableEq, Repr

namespace Kind

/-- The name of a kind in token listings. -/
def name : Kind → String
  | leftParen => "LEFT_PAREN"
  | rightParen => "RIGHT_PAREN"
  | leftBrace => "LEFT_BRACE"
  | rightBrace => "RIGHT_BRACE"
  | comma => "COMMA"
  | dot => "DOT"
  | minus => "MINUS"
  | plus => "PLUS"
  | semicolon => "SEMICOLON"
  | star => "STAR"
  | percent => "PERCENT"
  | slash => "SLASH"
  | bang => "BANG"
  | equal => "EQUAL"
  | less => "LESS"
  | greater => "GREATER"
  | bitwiseOr => "BITWISE_OR"
  | bitwiseAnd => "BITWISE_AND"
  | bangEqual => "BANG_EQUAL"
  | equalEqual => "EQUAL_EQUAL"
  | lessEqual => "LESS_EQUAL"
  | greaterEqual => "GREATER_EQUAL"
  | logicalOr => "LOGICAL_OR"
  | logicalAnd => "LOGICAL_AND"
  | doWord => "DO"
  | elseWord => "ELSE"
  | falseWord => "FALSE"
  | ifWord => "IF"
  | letWord => "LET"
  | nullWord => "NULL"
  | returnWord => "RETURN"
  | trueWord => "TRUE"
  | namespaceWord => "NAMESPACE"
  | boolType => "BOOL"
  | hexType => "HEX"
  | binType => "BIN"
  | charType => "CHAR"
  | stringType => "STRING"
  | intType => "INT"
  | floatType => "FLOAT"
  | intLiteral => "INT_LIT"
  | floatLiteral => "FLOAT_LIT"
  | hexLiteral => "HEX_LIT"
  | binLiteral => "BIN_LIT"
  | stringLiteral => "STRING_LIT"
  | charLiteral => "CHAR_LIT"
  | identifier => "IDENTIFIER"
  | endOfInput => "EOF"

/-- Whether the kind is a type word, which declares a variable as `let` does. -/
def isTypeWord : Kind → Bool
  | boolType | hexType | binType | charType | stringType | intType | floatType => true
  | _ => false

/-- Whether tokens of the kind carry a value. -/
def isLiteral : Kind → Bool
  | intLiteral | floatLiteral | hexLiteral | binLiteral | stringLiteral | charLiteral => true
  | _ => false

/-- Whether a statement that begins with the kind is where reading resumes after an error. -/
def startsStatement : Kind → Bool
  | doWord | letWord | ifWord | returnWord | namespaceWord => true
  | _ => false

/-- The kind of a mark of one character. -/
def ofMark? : Char → Option Kind
  | '(' => some leftParen
  | ')' => some rightParen
  | '\x7b' => some leftBrace
  | '\x7d' => some rightBrace
  | ',' => some comma
  | '.' => some dot
  | '-' => some minus
  | '+' => some plus
  | ';' => some semicolon
  | '*' => some star
  | '%' => some percent
  | '/' => some slash
  | '!' => some bang
  | '=' => some equal
  | '<' => some less
  | '>' => some greater
  | '|' => some bitwiseOr
  | '&' => some bitwiseAnd
  | _ => none

/-- The kind of a mark of two characters. -/
def ofMarkPair? : Char → Char → Option Kind
  | '!', '=' => some bangEqual
  | '=', '=' => some equalEqual
  | '<', '=' => some lessEqual
  | '>', '=' => some greaterEqual
  | '|', '|' => some logicalOr
  | '&', '&' => some logicalAnd
  | _, _ => none

/-- The kind of a word: a keyword, a type word or an identifier. -/
def ofWord : String → Kind
  | "do" => doWord
  | "else" => elseWord
  | "false" => falseWord
  | "if" => ifWord
  | "let" => letWord
  | "null" => nullWord
  | "return" => returnWord
  | "true" => trueWord
  | "namespace" => namespaceWord
  | "boolean" => boolType
  | "hex" => hexType
  | "bin" => binType
  | "char" => charType
  | "string" => stringType
  | "int" => intType
  | "float" => floatType
  | _ => identifier

/-- The kind of a numeral literal. -/
def ofBase : Base → Kind
  | .hexadecimal => hexLiteral
  | .binary => binLiteral

end Kind

/-- A lexeme with its value and its place. -/
structure Token where
  kind : Kind
  text : String
  literal : Option Literal
  line : Nat
  /-- The offset of the first character. -/
  start : Nat
  /-- The offset after the last character. -/
  stop : Nat

/-- How a token listing shows a token. -/
def Token.describe (t : Token) : String :=
  t.kind.name ++ " " ++ Text.quoted t.text ++ " " ++ (t.literal.getD .null).describe

end RadixScript
