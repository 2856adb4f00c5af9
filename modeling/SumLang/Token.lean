import SumLang.Double.Text
import SumLang.Text.Quoted

/-! Tokens of the language: keywords, punctuation, names, operators and literals. -/
namespace SumLang

/-- Tokens without a decoded literal: keywords, punctuation, names and operators. -/
inductive Symbol where
  | funcWord
  | letWord
  | varWord
  | enumWord
  | caseWord
  | intWord
  | floatWord
  | voidWord
  | boolWord
  | stringWord
  | returnWord
  | printWord
  | ifWord
  | identifier
  | operator
  | arrow
  | equal
  | colon
  | semicolon
  | leftParen
  | rightParen
  | leftBrace
  | rightBrace
  | comma
  | period
deriving DecidableEq, Repr

namespace Symbol

def label : Symbol → String
  | funcWord => "FUNC"
  | letWord => "LET"
  | varWord => "VAR"
  | enumWord => "ENUM"
  | caseWord => "CASE"
  | intWord => "INT"
  | floatWord => "FLOAT"
  | voidWord => "VOID"
  | boolWord => "BOOL"
  | stringWord => "STRING"
  | returnWord => "RETURN"
  | printWord => "PRINT"
  | ifWord => "IF"
  | identifier => "IDENTIFIER"
  | operator => "OPERATOR"
  | arrow => "ARROW"
  | equal => "EQUAL"
  | colon => "COLON"
  | semicolon => "SEMICOLON"
  | leftParen => "LPAREN"
  | rightParen => "RPAREN"
  | leftBrace => "LBRACE"
  | rightBrace => "RBRACE"
  | comma => "COMMA"
  | period => "PERIOD"

def all : List Symbol :=
  [funcWord, letWord, varWord, enumWord, caseWord, intWord, floatWord, voidWord, boolWord,
    stringWord, returnWord, printWord, ifWord, identifier, operator, arrow, equal, colon,
    semicolon, leftParen, rightParen, leftBrace, rightBrace, comma, period]

def ofKeyword? : String → Option Symbol
  | "func" => some funcWord
  | "let" => some letWord
  | "var" => some varWord
  | "Int" => some intWord
  | "Float" => some floatWord
  | "Void" => some voidWord
  | "Bool" => some boolWord
  | "String" => some stringWord
  | "return" => some returnWord
  | "print" => some printWord
  | "enum" => some enumWord
  | "case" => some caseWord
  | "if" => some ifWord
  | _ => none

def ofPunctuation? : Char → Option Symbol
  | '=' => some equal
  | ':' => some colon
  | ';' => some semicolon
  | '(' => some leftParen
  | ')' => some rightParen
  | '\x7b' => some leftBrace
  | '\x7d' => some rightBrace
  | ',' => some comma
  | '.' => some period
  | _ => none

def builtinType? : Symbol → Option String
  | intWord => some "Int"
  | floatWord => some "Float"
  | voidWord => some "Void"
  | boolWord => some "Bool"
  | stringWord => some "String"
  | _ => none

end Symbol

/-- Binding power of the binary operators; a higher one binds tighter. -/
def operatorPrecedence? : String → Option Int
  | "+" => some 20
  | "-" => some 20
  | "*" => some 40
  | "/" => some 40
  | _ => none

inductive Content where
  | symbol (s : Symbol) (value : String)
  | integer (n : Int)
  | float (x : Double)
  | string (s : String)
  | boolean (b : Bool)
deriving DecidableEq, Repr

namespace Content

def label : Content → String
  | symbol s _ => s.label
  | integer _ => "INTEGER_LITERAL"
  | float _ => "FLOAT_LITERAL"
  | string _ => "STRING_LITERAL"
  | boolean _ => "BOOL_LITERAL"

def display : Content → String
  | symbol _ v => Text.quoted v
  | integer n => toString n
  | float x => x.toText
  | string s => Text.quoted s
  | boolean b => if b then "True" else "False"

end Content

/-- A token with the text it was read from and its offset. The precedence matters for operators. -/
structure Token where
  content : Content
  text : String
  position : Int := 0
  precedence : Int := -1
deriving DecidableEq, Repr

namespace Token

/-- The most digits of an integer that is read or written. -/
def maxIntegerDigits : Nat := 4300

def symbol? (t : Token) : Option Symbol :=
  match t.content with
  | .symbol s _ => some s
  | _ => none

def isSymbol (t : Token) (s : Symbol) : Bool :=
  t.symbol? == some s

def isOperator (t : Token) : Bool :=
  t.isSymbol .operator

def isTypeKeyword (t : Token) : Bool :=
  (t.symbol?.bind Symbol.builtinType?).isSome

def length (t : Token) : Nat :=
  t.text.length

/-- The listing of a token: kind, value, the precedence of an operator, and offset. -/
def describe (t : Token) : String :=
  let power := if t.isOperator then "/" ++ toString t.precedence else ""
  "Token(" ++ t.content.label ++ ", " ++ t.content.display ++ power ++ ", @" ++
    toString t.position ++ ")"

end Token

end SumLang
