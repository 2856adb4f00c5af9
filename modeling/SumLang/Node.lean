import SumLang.Double

/-! Syntax trees. Every construct is a `Node`, and a node may stand anywhere in a tree; which trees
come from source text is a matter of the grammar. -/
namespace SumLang

inductive Mutability where
  | immutable
  | mutable
deriving DecidableEq, Repr

/-- A declared variable, parameter, field or binding. Types are names. -/
structure Variable where
  mutability : Mutability
  type : String
  name : String
deriving DecidableEq, Repr

structure Prototype where
  name : String
  formals : List Variable
  result : String
deriving DecidableEq, Repr

structure EnumCase where
  enum : String
  name : String
  values : List Variable
deriving DecidableEq, Repr

structure EnumDefinition where
  name : String
  cases : List EnumCase
deriving DecidableEq, Repr

inductive Node where
  | program (statements : List Node)
  | function (prototype : Prototype) (body : List Node)
  | prototype (p : Prototype)
  | declare (v : Variable)
  | assign (v : Variable) (value : Node)
  | yield (value : Node)
  | print (values : List Node)
  | call (callee : String) (arguments : List Node)
  | name (identifier : String)
  | branch (condition : Node) (body : List Node)
  | caseTest (tested : Variable) (case : String) (bindings : List Variable) (body : List Node)
  | typeName (name : String)
  | binary (left : Node) (operator : String) (right : Node)
  | integer (n : Int)
  | float (x : Double)
  | string (s : String)
  | boolean (b : Bool)
  | enumeration (d : EnumDefinition)
  | enumCase (c : EnumCase)
  | construct (enum : String) (case : String) (arguments : List Node)
deriving Repr, Inhabited

/-- The types that every program has. -/
def isBuiltinType (name : String) : Bool :=
  name == "Int" || name == "Float" || name == "String" || name == "Bool" || name == "Void"

namespace Node

/-- The name under which a kind of node is listed. -/
def label : Node → String
  | program _ => "ProgramNode"
  | function _ _ => "FunctionNode"
  | prototype _ => "PrototypeNode"
  | declare _ => "VariableNode"
  | assign _ _ => "AssignExpression"
  | yield _ => "ReturnNode"
  | print _ => "PrintNode"
  | call _ _ => "CallNode"
  | name _ => "FieldAccessNode"
  | branch _ _ => "IfStatementNode"
  | caseTest _ _ _ _ => "IfLetNode"
  | typeName _ => "TypeNode"
  | binary _ _ _ => "BinaryOperation"
  | integer _ => "IntegerLiteral"
  | float _ => "FloatLiteral"
  | string _ => "StringLiteral"
  | boolean _ => "BoolLiteral"
  | enumeration _ => "EnumDefinitionNode"
  | enumCase _ => "EnumCaseDefinitionNode"
  | construct _ _ _ => "EnumConstruction"

def isExpression : Node → Bool
  | integer _ | float _ | string _ | boolean _ | name _ | call _ _ | binary _ _ _
  | construct _ _ _ => true
  | _ => false

def enumerations (nodes : List Node) : List EnumDefinition :=
  nodes.filterMap fun
    | enumeration d => some d
    | _ => none

/-- The node at an index; a negative index counts from the end. -/
def at? (nodes : List Node) (i : Int) : Option Node :=
  if 0 ≤ i then nodes[i.toNat]?
  else if -i ≤ nodes.length then nodes[(nodes.length + i).toNat]?
  else none

end Node

end SumLang
