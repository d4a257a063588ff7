import SafariScript.Literal
import SafariScript.Text.Integer
import SafariScript.Word

/-!
# Tokens

The smallest meaningful pieces of a source text. A token keeps what its spelling cannot be recovered
from otherwise: the name of an identifier, the digits of a number, the raw body of a string.
-/

namespace SafariScript

/-- Punctuation and operators. -/
inductive Symbol where
  | leftParen
  | rightParen
  | leftBrace
  | rightBrace
  | leftBracket
  | rightBracket
  | comma
  | dot
  | semicolon
  | plus
  | minus
  | star
  | slash
  | percent
  | bang
  | bangEqual
  | equal
  | equalEqual
  | less
  | lessEqual
  | greater
  | greaterEqual
  | and
  | or
  | arrow
deriving DecidableEq, Inhabited, Repr

namespace Symbol

/-- The characters of a symbol. -/
def spelling : Symbol → String
  | .leftParen => "("
  | .rightParen => ")"
  | .leftBrace => "\x7b"
  | .rightBrace => "\x7d"
  | .leftBracket => "["
  | .rightBracket => "]"
  | .comma => ","
  | .dot => "."
  | .semicolon => ";"
  | .plus => "+"
  | .minus => "-"
  | .star => "*"
  | .slash => "/"
  | .percent => "%"
  | .bang => "!"
  | .bangEqual => "!="
  | .equal => "="
  | .equalEqual => "=="
  | .less => "<"
  | .lessEqual => "<="
  | .greater => ">"
  | .greaterEqual => ">="
  | .and => "&&"
  | .or => "||"
  | .arrow => "->"

/-- The name of a symbol in a token listing. -/
def typeName : Symbol → String
  | .leftParen => "LEFT_PAREN"
  | .rightParen => "RIGHT_PAREN"
  | .leftBrace => "LEFT_BRACE"
  | .rightBrace => "RIGHT_BRACE"
  | .leftBracket => "LEFT_BRACKET"
  | .rightBracket => "RIGHT_BRACKET"
  | .comma => "COMMA"
  | .dot => "DOT"
  | .semicolon => "SEMICOLON"
  | .plus => "PLUS"
  | .minus => "MINUS"
  | .star => "STAR"
  | .slash => "SLASH"
  | .percent => "PERCENT"
  | .bang => "BANG"
  | .bangEqual => "BANG_EQUAL"
  | .equal => "EQUAL"
  | .equalEqual => "EQUAL_EQUAL"
  | .less => "LESS"
  | .lessEqual => "LESS_EQUAL"
  | .greater => "GREATER"
  | .greaterEqual => "GREATER_EQUAL"
  | .and => "AND"
  | .or => "OR"
  | .arrow => "ARROW"

/-- The symbol of two characters, if they make one. -/
def ofPair? : Char → Char → Option Symbol
  | '!', '=' => some .bangEqual
  | '=', '=' => some .equalEqual
  | '<', '=' => some .lessEqual
  | '>', '=' => some .greaterEqual
  | '&', '&' => some .and
  | '|', '|' => some .or
  | '-', '>' => some .arrow
  | _, _ => none

/-- The symbol of one character, if it is one. -/
def ofChar? : Char → Option Symbol
  | '(' => some .leftParen
  | ')' => some .rightParen
  | '{' => some .leftBrace
  | '}' => some .rightBrace
  | '[' => some .leftBracket
  | ']' => some .rightBracket
  | ',' => some .comma
  | '.' => some .dot
  | ';' => some .semicolon
  | '+' => some .plus
  | '-' => some .minus
  | '*' => some .star
  | '/' => some .slash
  | '%' => some .percent
  | '!' => some .bang
  | '=' => some .equal
  | '<' => some .less
  | '>' => some .greater
  | _ => none

end Symbol

/-- The words with a meaning of their own. -/
inductive Keyword where
  | varKw
  | ifKw
  | elseKw
  | whileKw
  | forKw
  | inKw
  | toKw
  | breakKw
  | continueKw
  | runKw
  | defineKw
  | returnKw
  | printKw
  | exploreKw
  | throwBallKw
  | safariZoneKw
  | teamKw
  | trueKw
  | falseKw
  | nullKw
deriving DecidableEq, Inhabited, Repr

namespace Keyword

/-- The spelling of a keyword. -/
def spelling : Keyword → String
  | .varKw => "var"
  | .ifKw => "if"
  | .elseKw => "else"
  | .whileKw => "while"
  | .forKw => "for"
  | .inKw => "in"
  | .toKw => "to"
  | .breakKw => "break"
  | .continueKw => "continue"
  | .runKw => "run"
  | .defineKw => "define"
  | .returnKw => "return"
  | .printKw => "print"
  | .exploreKw => "explore"
  | .throwBallKw => "throwBall"
  | .safariZoneKw => "SafariZone"
  | .teamKw => "Team"
  | .trueKw => "true"
  | .falseKw => "false"
  | .nullKw => "null"

/-- The name of a keyword in a token listing. -/
def typeName : Keyword → String
  | .varKw => "VAR"
  | .ifKw => "IF"
  | .elseKw => "ELSE"
  | .whileKw => "WHILE"
  | .forKw => "FOR"
  | .inKw => "IN"
  | .toKw => "TO"
  | .breakKw => "BREAK"
  | .continueKw => "CONTINUE"
  | .runKw => "RUN"
  | .defineKw => "DEFINE"
  | .returnKw => "RETURN"
  | .printKw => "PRINT"
  | .exploreKw => "EXPLORE"
  | .throwBallKw => "THROW_BALL"
  | .safariZoneKw => "SAFARI_ZONE"
  | .teamKw => "TEAM"
  | .trueKw => "TRUE"
  | .falseKw => "FALSE"
  | .nullKw => "NULL"

/-- Every keyword. -/
def all : List Keyword :=
  [ .varKw, .ifKw, .elseKw, .whileKw, .forKw,
    .inKw, .toKw, .breakKw, .continueKw, .runKw,
    .defineKw, .returnKw, .printKw, .exploreKw, .throwBallKw,
    .safariZoneKw, .teamKw, .trueKw, .falseKw, .nullKw ]

/-- The keyword with a spelling. -/
def ofSpelling? (s : String) : Option Keyword :=
  all.find? (·.spelling == s)

end Keyword

/-- What a token is. -/
inductive TokenKind where
  | symbol (symbol : Symbol)
  | keyword (keyword : Keyword)
  | ident (name : String)
  /-- A run of digits. -/
  | number (digits : String)
  /-- A string by what stands between its quotation marks, escapes not yet resolved. -/
  | text (raw : String)
deriving DecidableEq, Inhabited, Repr

/-- A token and the line its first character stands on. -/
structure Token where
  kind : TokenKind
  line : Int
deriving DecidableEq, Inhabited, Repr

/-- Resolve the escapes of a string body: a backslash gives a line feed before `n`, a tab before `t`, and
else the character after it. -/
def unescape : List Char → List Char
  | [] => []
  | '\\' :: 'n' :: rest => '\n' :: unescape rest
  | '\\' :: 't' :: rest => '\t' :: unescape rest
  | '\\' :: c :: rest => c :: unescape rest
  | c :: rest => c :: unescape rest

/-- The value of a run of ASCII digits. -/
def digitsValue (digits : List Char) : Nat :=
  Text.ofDigits (digits.map fun c => c.toNat - '0'.toNat)

namespace TokenKind

/-- The spelling of a token in the source. -/
def lexeme : TokenKind → String
  | .symbol s => s.spelling
  | .keyword k => k.spelling
  | .ident name => name
  | .number digits => digits
  | .text raw => "\"" ++ raw ++ "\""

/-- The constant that a number or a string stands for. -/
def literal? : TokenKind → Option Literal
  | .number digits => some (.int (digitsValue digits.toList))
  | .text raw => some (.text (String.ofList (unescape raw.toList)))
  | _ => none

/-- The name of a kind of token in a listing. -/
def typeName : TokenKind → String
  | .symbol s => s.typeName
  | .keyword k => k.typeName
  | .ident _ => "IDENTIFIER"
  | .number _ => "NUMBER"
  | .text _ => "STRING"

end TokenKind

namespace Token

/-- The spelling of a token in the source. -/
def lexeme (t : Token) : String :=
  t.kind.lexeme

/-- A token as the place of a problem. -/
def word (t : Token) : Word :=
  ⟨t.lexeme, t.line⟩

end Token
end SafariScript
