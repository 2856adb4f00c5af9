import SumLang.Text.CodePoints

/-! Quoted text: a string in quotes, with escapes for what cannot be shown. -/
namespace SumLang.Text

def isPrintable (c : Char) : Bool :=
  if c.toNat < 0x7F then 0x20 ≤ c.toNat
  else !hiddenRanges.any fun (first, last) => first ≤ c.toNat && c.toNat ≤ last

def padZeros (width : Nat) (digits : List Char) : List Char :=
  List.replicate (width - digits.length) '0' ++ digits

def hexDigits (width n : Nat) : List Char :=
  padZeros width (Nat.toDigits 16 n)

/-- A backslash escape by code point, in the shortest of the three widths that holds it. -/
def codePointEscape (c : Char) : List Char :=
  let n := c.toNat
  if n < 0x100 then '\\' :: 'x' :: hexDigits 2 n
  else if n < 0x10000 then '\\' :: 'u' :: hexDigits 4 n
  else '\\' :: 'U' :: hexDigits 8 n

def quoteChar (quote c : Char) : List Char :=
  if c = quote || c = '\\' then ['\\', c]
  else if c = '\n' then ['\\', 'n']
  else if c = '\r' then ['\\', 'r']
  else if c = '\t' then ['\\', 't']
  else if isPrintable c then [c]
  else codePointEscape c

/-- Single quotes, unless the text holds a single quote and no double quote. -/
def quoteMark (s : String) : Char :=
  if s.toList.contains '\'' && !s.toList.contains '"' then '"' else '\''

def quoted (s : String) : String :=
  let quote := quoteMark s
  String.ofList (quote :: s.toList.flatMap (quoteChar quote) ++ [quote])

def quotedList (items : List String) : String :=
  "[" ++ ", ".intercalate (items.map quoted) ++ "]"

end SumLang.Text
