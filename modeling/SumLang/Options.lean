import SumLang.Lowering.Settings

/-! Options of a compilation, and their defaults from the environment. -/
namespace SumLang

/-- The settings of the lowering, and whether comments are removed first. -/
structure Options extends Settings where
  stripComments : Bool := true
deriving DecidableEq, Repr

abbrev Environment := List (String × String)

/-- The truth value that a text spells. -/
def readFlag? (text : String) : Option Bool :=
  match Text.lowercase (Text.trim text) with
  | "1" | "true" | "yes" | "on" => some true
  | "0" | "false" | "no" | "off" => some false
  | _ => none

namespace Options

/-- The options that the environment asks for; a variable with an unknown value is ignored. -/
def ofEnvironment (env : Environment) : Options :=
  let flag (name : String) : Bool := ((env.lookup name).bind readFlag?).getD true
  { dialect := ((env.lookup "TEDDY_TARGET").bind Dialect.ofName?).getD .c
    enumTags := flag "TEDDY_ENUM_TAGS"
    entryPoint := flag "TEDDY_ENTRY_POINT"
    forwardDeclarations := flag "TEDDY_FORWARD_DECLS" }

end Options

end SumLang
