import SumLang.Diagnostic
import SumLang.Token

/-! Reading of source text as tokens, longest lexeme first. -/
namespace SumLang

inductive LexFault where
  | invalidCharacter (c : Char) (position : Int)
  | unterminatedString (position : Int)
  | integerTooLong (digits : Nat)
deriving DecidableEq, Repr

namespace LexFault

/-- The capital hexadecimal digits of a code point, at least two. -/
def codePoint (c : Char) : String :=
  String.ofList ((Text.hexDigits 2 c.toNat).map Char.toUpper)

def diagnostic : LexFault → Diagnostic
  | invalidCharacter c p =>
    { message := "unexpected character '" ++ c.toString ++ "' (0x" ++ codePoint c ++ ")"
      position := some p }
  | unterminatedString p =>
    { message := "unterminated string literal"
      position := some p
      hint := some "add closing '\"' to complete the string" }
  | integerTooLong n =>
    { message := "Exceeds the limit (4300 digits) for integer string conversion: value has " ++
        toString n ++ " digits; use sys.set_int_max_str_digits() to increase the limit" }

end LexFault

namespace Token

def isSpace (c : Char) : Bool :=
  c == ' ' || c == '\t' || c == '\r' || c == '\n'

def isWordStart (c : Char) : Bool :=
  c.isAlpha

def isWordPart (c : Char) : Bool :=
  c.isAlphanum || c == '_'

/-- The character that an escape denotes; an unknown escape denotes the character itself. -/
def unescape (c : Char) : Char :=
  match c with
  | 'n' => '\n'
  | 't' => '\t'
  | 'r' => '\r'
  | '0' => '\x00'
  | c => c

/-- A lexeme found at some place: what it stands for and how many characters it takes after its
first. -/
structure Lexeme where
  content : Content
  more : Nat
  precedence : Int := -1
deriving DecidableEq, Repr

/-- A whole word is a keyword, a truth value or a name. -/
def wordContent (w : String) : Content :=
  match Symbol.ofKeyword? w with
  | some k => .symbol k w
  | none =>
    if w = "true" then .boolean true
    else if w = "false" then .boolean false
    else .symbol .identifier w

def word (c : Char) (cs : List Char) : Lexeme :=
  let tail := cs.takeWhile isWordPart
  ⟨wordContent (String.ofList (c :: tail)), tail.length, -1⟩

/-- The digits after a point, if the rest starts with a point and a digit. -/
def fraction (cs : List Char) : List Char :=
  match cs with
  | '.' :: cs => cs.takeWhile Char.isDigit
  | _ => []

/-- The number that starts with the digit `c`. A fraction needs a digit after the point, and the
integers have a limit on their length. -/
def number (c : Char) (cs : List Char) : Except LexFault Lexeme :=
  let tail := cs.takeWhile Char.isDigit
  let whole := c :: tail
  match fraction (cs.dropWhile Char.isDigit) with
  | [] =>
    if maxIntegerDigits < whole.length then .error (.integerTooLong whole.length)
    else .ok ⟨.integer (Double.digitsValue whole), tail.length, -1⟩
  | digits => .ok ⟨.float (Double.ofLexeme whole digits), tail.length + 1 + digits.length, -1⟩

/-- The content of a string after its opening quote, and the number of characters up to and with
the closing one. A backslash takes the next character with it; a bare line end leaves the string
open. -/
def stringBody : List Char → Option (List Char × Nat)
  | [] => none
  | '"' :: _ => some ([], 1)
  | '\n' :: _ => none
  | '\\' :: c :: cs => (stringBody cs).map fun (s, n) => (unescape c :: s, n + 2)
  | c :: cs => (stringBody cs).map fun (s, n) => (c :: s, n + 1)

def lexeme (position : Nat) (c : Char) (cs : List Char) : Except LexFault Lexeme :=
  if isWordStart c then .ok (word c cs)
  else if c == '-' && cs.head? == some '>' then .ok ⟨.symbol .arrow "->", 1, -1⟩
  else match operatorPrecedence? c.toString with
    | some p => .ok ⟨.symbol .operator c.toString, 0, p⟩
    | none => match Symbol.ofPunctuation? c with
      | some s => .ok ⟨.symbol s c.toString, 0, -1⟩
      | none =>
        if c.isDigit then number c cs
        else if c == '"' then match stringBody cs with
          | some (s, n) => .ok ⟨.string (String.ofList s), n, -1⟩
          | none => .error (.unterminatedString position)
        else .error (.invalidCharacter c position)

def ofLexeme (position : Nat) (c : Char) (cs : List Char) (l : Lexeme) : Token :=
  ⟨l.content, String.ofList (c :: cs.take l.more), position, l.precedence⟩

/-- The tokens of a text from `position` on, up to its end or the first fault. -/
def scanFrom (position : Nat) : List Char → List Token × Option LexFault
  | [] => ([], none)
  | c :: cs =>
    if isSpace c then scanFrom (position + 1) cs
    else match lexeme position c cs with
      | .error fault => ([], some fault)
      | .ok l =>
        let (tokens, fault) := scanFrom (position + 1 + l.more) (cs.drop l.more)
        (ofLexeme position c cs l :: tokens, fault)
termination_by cs => cs.length
decreasing_by all_goals simp only [List.length_cons, List.length_drop]; omega

/-- The tokens of a text up to its end or its first fault. -/
def scan (source : String) : List Token × Option LexFault :=
  scanFrom 0 source.toList

def tokenize (source : String) : Except LexFault (List Token) :=
  match scan source with
  | (tokens, none) => .ok tokens
  | (_, some fault) => .error fault

theorem tokenize_eq_ok {source : String} {tokens : List Token} :
    tokenize source = .ok tokens ↔ scan source = (tokens, none) := by
  rw [tokenize]
  cases h : scan source with
  | mk ts fault => cases fault <;> simp

theorem tokenize_eq_error {source : String} {fault : LexFault} :
    tokenize source = .error fault ↔ (scan source).2 = some fault := by
  rw [tokenize]
  cases h : scan source with
  | mk ts fault => cases fault <;> simp

end Token

end SumLang
