import SumLang.Lowering.Format
import SumLang.Lowering.Literal
import SumLang.Token

/-! The lowering of nodes to lines of C. -/
namespace SumLang.Lowering

/-- The text of a value where one is written; a node that leaves none reads `None`. -/
def valueText (value : Option String) : String :=
  value.getD "None"

/-- The arguments of a call, each of which needs a value. -/
def joinValues (values : List (Option String)) : Lowering String :=
  if values.all Option.isSome then return ", ".intercalate (values.map valueText)
  else throw (@LoweringFault.valueMissing .absent)

/-- The digits of an integer, unless there are too many. -/
def integerText (n : Int) : Lowering String :=
  if Token.maxIntegerDigits < (toString n.natAbs).length then
    throw (@LoweringFault.valueMissing .overlong)
  else return toString n

/-- The precedence of an operator, which it needs to be written. -/
def precedenceOf (operator : String) : Lowering Int :=
  match operatorPrecedence? operator with
  | some p => return p
  | none => throw (.unknownOperator operator)

/-- Whether an operand is itself an operation whose precedence satisfies `p`. -/
def isOperation (p : Int → Bool) : Node → Bool
  | .binary _ op _ => ((operatorPrecedence? op).map p).getD false
  | _ => false

def parenthesized (needed : Bool) (text : String) : String :=
  if needed then "(" ++ text ++ ")" else text

/-- An operation. An operand is put in parentheses only where it would otherwise be grouped
differently: a looser one on the left, and one that is no tighter on the right. -/
def operationText (precedence : Int) (left : Node) (leftText operator : String) (right : Node)
    (rightText : String) : String :=
  parenthesized (isOperation (· < precedence) left) leftText ++ " " ++ operator ++ " " ++
    parenthesized (isOperation (· ≤ precedence) right) rightText

/-- The constructor of a case. An enum defined elsewhere is trusted to have it. -/
def constructorOf (enum case : String) : Lowering String := do
  if (← get).enums.contains enum then
    return (← ofEnums (·.lookup enum case)).constructor
  else return CaseLayout.constructor ⟨enum, case, []⟩

/-- Prints a value with the conversion of its type, or to the output stream. -/
def writePrint (s : Settings) (value : Node) (text : String) : Lowering Unit := do
  if s.dialect.streams then writeStatement (.stream text)
  else writeStatement (.printf (conversion ((← get).typeOf value)) text)

/-- A node that has a value is a statement of its own. -/
def finishStatement (n : Node) (value : Option String) : Lowering Unit :=
  if n.isExpression then writeStatement (.evaluate (valueText value)) else return

/-- Functions cannot be nested. -/
def checkTopLevel (name : String) : Lowering Unit := do
  if 0 < (← get).depth then
    throw (.unsupported ("nested function '" ++ name ++ "'")
      (some "define functions at the top level"))

/-- The case that a test names, with as many bindings as it has values. -/
def testedCase (s : Settings) (enum case : String) (bound : Nat) : Lowering CaseLayout := do
  if !s.enumTags then
    throw (.unsupported ("'if let' on enum '" ++ enum ++ "' without enum tags")
      (some "enable enum tags to test enum cases"))
  let c ← ofEnums (·.lookup enum case)
  if bound ≠ c.arity then
    throw (.enum (.bindingCount enum case c.arity bound))
  return c

def writeBindings (s : Settings) (c : CaseLayout) (owner : String) :
    List (Variable × Variable) → Lowering Unit
  | [] => return
  | (v, field) :: rest => do
    declare v
    writeStatement (c.binding s owner v field.name)
    writeBindings s c owner rest

mutual

/-- Lowers a node: writes its lines, and gives the text of its value if it has one. -/
def lower (s : Settings) : Node → Lowering (Option String)
  | .integer n => return some (← integerText n)
  | .float x => return some x.toText
  | .string t => return some (stringLiteral t)
  | .boolean b => return some (if b then "true" else "false")
  | .name x => return some x
  | .call f args => do
    let text ← joinValues (← lowerValues s args)
    return some (f ++ "(" ++ text ++ ")")
  | .binary a op b => do
    let precedence ← precedenceOf op
    let left ← lower s a
    let right ← lower s b
    return some (operationText precedence a (valueText left) op b (valueText right))
  | .construct enum case args => do
    let text ← joinValues (← lowerValues s args)
    return some ((← constructorOf enum case) ++ "(" ++ text ++ ")")
  | .function p body => do
    checkTopLevel p.name
    write (.enter (.function (s.signature p)))
    enter
    p.formals.forM declare
    lowerAll s body
    leave
    write (.leave none)
    return none
  | .prototype p => do
    writeStatement (.prototype (s.signature p))
    return none
  | .declare v => do
    declare v
    writeStatement (.declare (s.binder v))
    return none
  | .assign v value => do
    let text ← lower s value
    declare v
    writeStatement (.define (s.binder v) (valueText text))
    return none
  | .yield value => do
    let text ← lower s value
    writeStatement (.yield (valueText text))
    return none
  | .print values => do
    lowerPrints s values
    return none
  | .branch condition body => do
    let text ← lower s condition
    write (.enter (.branch (valueText text)))
    enter
    lowerAll s body
    leave
    write (.leave none)
    return none
  | .caseTest v case bindings body => do
    let c ← testedCase s v.type case bindings.length
    write (.enter (.test (c.test v.name)))
    enter
    writeBindings s c v.name (bindings.zip c.fields)
    lowerAll s body
    leave
    write (.leave none)
    return none
  | .enumeration d =>
    throw (.unsupported ("nested enum '" ++ d.name ++ "'") (some "define enums at the top level"))
  | .program _ => throw (.noCounterpart "ProgramNode")
  | .typeName _ => throw (.noCounterpart "TypeNode")
  | .enumCase _ => throw (.noCounterpart "EnumCaseDefinitionNode")

def lowerAll (s : Settings) : List Node → Lowering Unit
  | [] => return
  | n :: ns => do
    finishStatement n (← lower s n)
    lowerAll s ns

def lowerValues (s : Settings) : List Node → Lowering (List (Option String))
  | [] => return []
  | n :: ns => do
    let value ← lower s n
    return value :: (← lowerValues s ns)

/-- Prints values in order, each on a line of output. -/
def lowerPrints (s : Settings) : List Node → Lowering Unit
  | [] => return
  | n :: ns => do
    writePrint s n (valueText (← lower s n))
    lowerPrints s ns

end

def statement (s : Settings) (n : Node) : Lowering Unit := do
  finishStatement n (← lower s n)

end SumLang.Lowering
