/-! Blank characters and trimming. -/
namespace SumLang.Text

/-- The white space that trimming removes: the ASCII controls that separate, the space, and the
separators of the wider character set. -/
def isBlank (c : Char) : Bool :=
  let n := c.toNat
  (0x9 ≤ n && n ≤ 0xD) || (0x1C ≤ n && n ≤ 0x20) || n == 0x85 || n == 0xA0 || n == 0x1680 ||
    (0x2000 ≤ n && n ≤ 0x200A) || n == 0x2028 || n == 0x2029 || n == 0x202F || n == 0x205F ||
    n == 0x3000

def dropEndWhile (p : Char → Bool) (s : List Char) : List Char :=
  (s.reverse.dropWhile p).reverse

def trimEnd (s : List Char) : List Char :=
  dropEndWhile isBlank s

def trim (s : String) : String :=
  String.ofList (trimEnd (s.toList.dropWhile isBlank))

def trimLineEnds (s : String) : String :=
  String.ofList (dropEndWhile (· == '\n') s.toList)

end SumLang.Text
