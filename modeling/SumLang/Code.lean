/-! The part of C and C++ that programs are lowered to, line by line. Types are already spelled as
the dialect wants them, and expressions are text. -/
namespace SumLang.Code

structure Binder where
  type : String
  name : String
deriving DecidableEq, Repr

namespace Binder

def text (b : Binder) : String :=
  b.type ++ " " ++ b.name

/-- Declares a constant. A pointer is itself constant, not what it points to. -/
def constText (b : Binder) : String :=
  if b.type.toList.getLast? = some '*' then b.type ++ " const " ++ b.name
  else "const " ++ b.type ++ " " ++ b.name

end Binder

structure Access where
  root : String
  members : List String
deriving DecidableEq, Repr

def Access.text (a : Access) : String :=
  ".".intercalate (a.root :: a.members)

/-- The head of a function. All parameters are constants. -/
structure Signature where
  result : Binder
  parameters : List Binder
  /-- Write `void` where there are no parameters. -/
  explicitVoid : Bool
deriving DecidableEq, Repr

def Signature.text (s : Signature) : String :=
  let parameters :=
    if s.parameters.isEmpty && s.explicitVoid then "void"
    else ", ".intercalate (s.parameters.map Binder.constText)
  s.result.text ++ "(" ++ parameters ++ ")"

inductive Statement where
  | declare (b : Binder)
  | define (b : Binder) (value : String)
  /-- A constant with the value found at an access path. -/
  | copy (b : Binder) (source : Access)
  /-- A variable with the default value of its type. -/
  | defineDefault (b : Binder)
  /-- Sets every byte of a variable to zero. -/
  | clear (name : String)
  | assign (target : Access) (value : String)
  | prototype (s : Signature)
  /-- Prints a value with a conversion, and a line end. -/
  | printf (conversion value : String)
  /-- Sends a value and a line end to the output stream. -/
  | stream (value : String)
  | yield (value : String)
  | evaluate (value : String)
deriving DecidableEq, Repr

def Statement.text : Statement → String
  | declare b => b.text ++ ";"
  | define b value => b.text ++ " = " ++ value ++ ";"
  | copy b source => b.constText ++ " = " ++ source.text ++ ";"
  | defineDefault b => b.text ++ " = " ++ b.type ++ "();"
  | clear name => "memset(&" ++ name ++ ", 0, sizeof(" ++ name ++ "));"
  | assign target value => target.text ++ " = " ++ value ++ ";"
  | prototype s => s.text ++ ";"
  | printf conversion value => "printf(\"" ++ conversion ++ "\\n\", " ++ value ++ ");"
  | stream value => "cout << " ++ value ++ " << endl;"
  | yield value => "return " ++ value ++ ";"
  | evaluate value => value ++ ";"

structure Test where
  subject : Access
  constant : String
deriving DecidableEq, Repr

def Test.text (t : Test) : String :=
  t.subject.text ++ " == " ++ t.constant

inductive Head where
  | function (s : Signature)
  | branch (condition : String)
  | test (t : Test)
  | structType (name : String)
  | enumType
deriving DecidableEq, Repr

def Head.text : Head → String
  | function s => s.text
  | branch condition => "if (" ++ condition ++ ")"
  | test t => "if (" ++ t.text ++ ")"
  | structType name => "typedef struct " ++ name
  | enumType => "typedef enum"

end Code

inductive Code where
  | blank
  /-- A line of the header. -/
  | header (text : String)
  | statement (s : Code.Statement)
  /-- A constant of an enumerated type, with a comma unless it is the last. -/
  | enumerator (name : String) (last : Bool)
  | enter (h : Code.Head)
  /-- Closes a block, naming the type that it defines. -/
  | leave (defines : Option String)
deriving DecidableEq, Repr

def Code.text : Code → String
  | blank => ""
  | header t => t
  | statement s => s.text
  | enumerator name last => if last then name else name ++ ","
  | enter h => h.text ++ " \x7b"
  | leave none => "\x7d"
  | leave (some name) => "\x7d " ++ name ++ ";"

structure Line where
  level : Nat
  code : Code
deriving DecidableEq, Repr

namespace Line

def repeated (s : String) : Nat → String
  | 0 => ""
  | n + 1 => s ++ repeated s n

/-- The line with an indentation unit for every level; a blank line has none. -/
def render (indent : String) (l : Line) : String :=
  match l.code with
  | .blank => ""
  | code => repeated indent l.level ++ code.text

def dropBlankEnd (ls : List Line) : List Line :=
  (ls.reverse.dropWhile (·.code == .blank)).reverse

end Line

end SumLang
