import SumLang.Diagnostic
import SumLang.Token

/-! A place in a token list, the faults found there, and the steps that all rules are made of. -/
namespace SumLang

/-- What the grammar wanted at the place of a fault. -/
inductive Expectation where
  | character
  | identifier
  | number
  | string
  | boolean
  | expression
  | printWord
  | operator
  | type
  | returnWord
  | declaration
  | enumeration
deriving DecidableEq, Repr

namespace Expectation

def label : Expectation → String
  | character => "EXPECTED_CHARACTER"
  | identifier => "EXPECTED_IDENTIFIER"
  | number => "EXPECTED_NUMBER"
  | string => "EXPECTED_STRING"
  | boolean => "EXPECTED_BOOL"
  | expression => "EXPECTED_EXPRESSION"
  | printWord => "EXPECTED_PRINT"
  | operator => "EXPECTED_OPERATOR"
  | type => "EXPECTED_TYPE"
  | returnWord => "EXPECTED_RETURN"
  | declaration => "EXPECTED_VARIABLE_DECLARATION"
  | enumeration => "EXPECTED_ENUM"

def all : List Expectation :=
  [character, identifier, number, string, boolean, expression, printWord, operator, type,
    returnWord, declaration, enumeration]

/-- The wording used where a rule gives none of its own. -/
def wording : Expectation → String
  | character => "symbol"
  | identifier => "identifier"
  | number => "number"
  | string => "string literal"
  | boolean => "boolean literal"
  | expression => "expression"
  | printWord => "'print'"
  | operator => "operator"
  | type => "type"
  | returnWord => "'return'"
  | declaration => "'let' or 'var'"
  | enumeration => "enum"

end Expectation

/-- A violation of the grammar: the expectation with its own wording, the token found instead (none
at the end), that token's index, and a hint. -/
structure GrammarFault where
  expectation : Expectation
  wanted : Option String := none
  token : Option Token
  index : Nat
  hint : Option String := none
deriving DecidableEq, Repr

namespace GrammarFault

def expected (f : GrammarFault) : String :=
  match f.wanted with
  | some w => if w = "" then f.expectation.wording else w
  | none => f.expectation.wording

def found (f : GrammarFault) : String :=
  match f.token with
  | some t => "'" ++ t.text ++ "'"
  | none => "end of input"

def diagnostic (f : GrammarFault) : Diagnostic :=
  { message := "expected " ++ f.expected ++ ", found " ++ f.found
    position := f.token.map Token.position
    hint := f.hint }

end GrammarFault

/-- A place in a token list: the number of tokens before it and the tokens from it on. -/
structure Cursor where
  index : Nat
  rest : List Token
deriving DecidableEq, Repr

/-- A rule reads tokens from a cursor. A rule that fails leaves the cursor where it failed. -/
abbrev Parser := EStateM GrammarFault Cursor

namespace Cursor

def start (tokens : List Token) : Cursor := ⟨0, tokens⟩

/-- The place after the current token; the end stays where it is. -/
def next : Cursor → Cursor
  | ⟨i, []⟩ => ⟨i, []⟩
  | ⟨i, _ :: ts⟩ => ⟨i + 1, ts⟩

/-- Enough for the nesting of any rules on the tokens left: between two tokens at most four rules
are entered. -/
def fuel (c : Cursor) : Nat := 4 * (c.rest.length + 1)

end Cursor

namespace Parser

def peek : Parser (Option Token) := fun c => .ok c.rest.head? c

def isAt (s : Symbol) : Parser Bool := fun c =>
  .ok ((c.rest.head?.map (·.isSymbol s)).getD false) c

def isNext (s : Symbol) : Parser Bool := fun c =>
  .ok (((c.rest.drop 1).head?.map (·.isSymbol s)).getD false) c

def advance : Parser Unit := fun c => .ok () c.next

def fail {α : Type} (e : Expectation) (wanted hint : Option String) : Parser α := fun c =>
  .error ⟨e, wanted, c.rest.head?, c.index, hint⟩ c

def take? (s : Symbol) : Parser Bool := do
  if ← isAt s then
    advance
    return true
  else return false

/-- Takes a given symbol, or fails as told. -/
def expect (s : Symbol) (e : Expectation) (wanted : Option String) : Parser Unit := do
  if ← isAt s then advance else fail e wanted none

def mark (s : Symbol) (text : String) : Parser Unit :=
  expect s .character (some ("'" ++ text ++ "'"))

def identifier : Parser String := do
  match ← peek with
  | some ⟨.symbol .identifier x, _, _, _⟩ => do
    advance
    return x
  | _ => fail .identifier none none

def startsOperand (t : Token) : Bool :=
  match t.content with
  | .symbol .identifier _ | .symbol .leftParen _ => true
  | .symbol _ _ => false
  | _ => true

/-- Takes the semicolon that ends a statement. Where an operand stands instead, an operator is
missing. -/
def statementEnd : Parser Unit := do
  if ← isAt .semicolon then advance
  else match ← peek with
    | some t =>
      if startsOperand t then fail .operator none none
      else fail .character (some "';'") none
    | none => fail .character (some "';'") none

/-- A type: the keyword of a built-in one, or a name. -/
def typeName : Parser String := do
  match ← peek with
  | some ⟨.symbol s value, _, _, _⟩ =>
    match s.builtinType? with
    | some name => do
      advance
      return name
    | none =>
      if s = .identifier then do
        advance
        return value
      else fail .type none none
  | _ => fail .type none none

end Parser

end SumLang
