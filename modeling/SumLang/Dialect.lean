import SumLang.Text.Blank
import SumLang.Text.LetterCase

/-! The languages that programs are lowered to: C and C++. -/
namespace SumLang

inductive Dialect where
  | c
  | cpp
deriving DecidableEq, Repr

namespace Dialect

def title : Dialect → String
  | c => "C"
  | cpp => "C++"

/-- The name used in options. -/
def key : Dialect → String
  | c => "c"
  | cpp => "cpp"

def headers : Dialect → List String
  | c => ["stdio.h", "stdlib.h", "stdbool.h", "string.h"]
  | cpp => ["iostream", "string", "cstdlib", "cstring"]

def includeLines (d : Dialect) : List String :=
  d.headers.map fun h => "#include <" ++ h ++ ">"

def namespaceLine : Dialect → Option String
  | c => none
  | cpp => some "using namespace std;"

def stringType : Dialect → String
  | c => "char*"
  | cpp => "string"

def streams : Dialect → Bool
  | c => false
  | cpp => true

def extension : Dialect → String
  | c => ".c"
  | cpp => ".cpp"

/-- The spelling of a type; a name that is not built in stays as it is. -/
def spellType (d : Dialect) (type : String) : String :=
  match type with
  | "String" => d.stringType
  | "Int" => "int"
  | "Float" => "float"
  | "Bool" => "bool"
  | "Void" => "void"
  | other => other

/-- The dialect of a name, whatever its letter case and the blanks around it. -/
def ofName? (name : String) : Option Dialect :=
  match Text.trim (Text.lowercase name) with
  | "c" => some c
  | "cpp" | "c++" | "cxx" => some cpp
  | _ => none

end Dialect

/-- Words that name no struct, member or field in C or C++. -/
def reservedWords : List String :=
  ["auto", "break", "case", "char", "const", "continue", "default", "do", "double", "else", "enum",
    "extern", "float", "for", "goto", "if", "inline", "int", "long", "register", "restrict",
    "return", "short", "signed", "sizeof", "static", "struct", "switch", "typedef", "union",
    "unsigned", "void", "volatile", "while", "bool", "true", "false", "alignas", "alignof", "and",
    "and_eq", "asm", "bitand", "bitor", "catch", "char16_t", "char32_t", "char8_t", "class",
    "compl", "concept", "consteval", "constexpr", "constinit", "const_cast", "co_await",
    "co_return", "co_yield", "decltype", "delete", "dynamic_cast", "explicit", "export", "friend",
    "mutable", "namespace", "new", "noexcept", "not", "not_eq", "nullptr", "operator", "or",
    "or_eq", "private", "protected", "public", "reinterpret_cast", "requires", "static_assert",
    "static_cast", "template", "this", "thread_local", "throw", "try", "typeid", "typename",
    "using", "virtual", "wchar_t", "xor", "xor_eq"]

def isReserved (name : String) : Bool :=
  reservedWords.contains name

end SumLang
