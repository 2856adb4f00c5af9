import SumLang.Text.CodePoints

/-! Letter case of names. -/
namespace SumLang.Text

/-- The capital form of a character, which may have more than one letter. -/
def upper (c : Char) : List Char :=
  if c.toNat < 0x80 then [c.toUpper]
  else
    match capitalTexts.lookup c.toNat with
    | some codes => codes.map Char.ofNat
    | none => [Char.ofNat ((assigned? capitals c.toNat).getD c.toNat)]

/-- The small form of a character. A dotted capital has a small letter and a dot above it. -/
def lower (c : Char) : List Char :=
  if c.toNat < 0x80 then [c.toLower]
  else if c = '\u0130' then ['i', '\u0307']
  else [Char.ofNat ((assigned? smallLetters c.toNat).getD c.toNat)]

def upperFirst (s : String) : String :=
  match s.toList with
  | [] => ""
  | c :: cs => String.ofList (upper c ++ cs)

def lowerFirst (s : String) : String :=
  match s.toList with
  | [] => ""
  | c :: cs => String.ofList (lower c ++ cs)

/-- Makes every character a small letter, whatever stands beside it: no final sigma is told apart,
and the words that such texts are compared with have none. -/
def lowercase (s : String) : String :=
  String.ofList (s.toList.flatMap lower)

end SumLang.Text
