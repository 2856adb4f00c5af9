import SumLang.Lowering.Memory

/-! The type that an expression evidently has, and the conversion that prints it. -/
namespace SumLang

/-- The type of an operation: a float if one operand is a float, an integer if both are. -/
def operationType (left right : Option String) : Option String :=
  if left = some "Float" || right = some "Float" then some "Float"
  else if left = some "Int" && right = some "Int" then some "Int"
  else none

/-- The type that a node evidently has where the names of `m` are in scope. -/
def Memory.typeOf (m : Memory) : Node → Option String
  | .integer _ => some "Int"
  | .float _ => some "Float"
  | .string _ => some "String"
  | .boolean _ => some "Bool"
  | .name x => m.lookup x
  | .call f _ => m.resultType f
  | .construct e _ _ => some e
  | .binary a _ b => operationType (m.typeOf a) (m.typeOf b)
  | _ => none

/-- The conversion for values of a type; texts are the rule for all other types. -/
def conversion : Option String → String
  | some "Int" => "%d"
  | some "Bool" => "%d"
  | some "Float" => "%f"
  | _ => "%s"

end SumLang
