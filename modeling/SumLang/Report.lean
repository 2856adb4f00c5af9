import SumLang.Compilation
import SumLang.Node.Outline

/-! A report of every stage of a compilation. -/
namespace SumLang

def bannerWidth : Int := 100

/-- A title between two rules, centred as far as the width allows. -/
def banner (title : String) (width : Int) : String :=
  let rule := String.ofList (List.replicate width.toNat '-')
  let margin := String.ofList (List.replicate ((width - title.length).fdiv 2).toNat ' ')
  "\n".intercalate [rule, "", margin ++ title, "", rule]

/-- Source, tokens, outline and generated text, each under a banner. -/
def Compilation.report (c : Compilation) : String :=
  let part (title body : String) : List String := [banner title bannerWidth, body]
  "\n\n".intercalate
    (part "Source Input (.teddy)" (Text.trimLineEnds c.source) ++
      part "Lexical Analysis" ("\n".intercalate (c.tokens.map Token.describe)) ++
      part "Parsing" (match c.program with
        | some nodes => (Node.program nodes).outline
        | none => "") ++
      part ("Code Generation (Target: " ++ c.dialect.title ++ ")")
        (Text.trimLineEnds c.code)) ++ "\n"

end SumLang
