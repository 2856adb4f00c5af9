import SumLang.Node

/-! The order of a walk through a syntax tree: a node, then its parts from left to right. -/
namespace SumLang

def Variable.walk (_ : Variable) : List String :=
  ["VariableNode", "TypeNode"]

def Prototype.walk (p : Prototype) : List String :=
  "PrototypeNode" :: p.formals.flatMap Variable.walk ++ ["TypeNode"]

def EnumCase.walk (c : EnumCase) : List String :=
  "EnumCaseDefinitionNode" :: c.values.flatMap Variable.walk

namespace Node

mutual

/-- The labels of the nodes of a tree in walking order. -/
def walk : Node → List String
  | program body => "ProgramNode" :: walkAll body
  | function p body => "FunctionNode" :: p.walk ++ walkAll body
  | prototype p => p.walk
  | declare v => v.walk
  | assign v value => "AssignExpression" :: v.walk ++ walk value
  | yield value => "ReturnNode" :: walk value
  | print values => "PrintNode" :: walkAll values
  | call _ args => "CallNode" :: walkAll args
  | name _ => ["FieldAccessNode"]
  | branch condition body => "IfStatementNode" :: walk condition ++ walkAll body
  | caseTest v _ bindings body =>
    "IfLetNode" :: v.walk ++ bindings.flatMap Variable.walk ++ walkAll body
  | typeName _ => ["TypeNode"]
  | binary a _ b => "BinaryOperation" :: walk a ++ walk b
  | integer _ => ["IntegerLiteral"]
  | float _ => ["FloatLiteral"]
  | string _ => ["StringLiteral"]
  | boolean _ => ["BoolLiteral"]
  | enumeration d => "EnumDefinitionNode" :: d.cases.flatMap EnumCase.walk
  | enumCase c => c.walk
  | construct _ _ args => "EnumConstruction" :: walkAll args

def walkAll : List Node → List String
  | [] => []
  | n :: ns => walk n ++ walkAll ns

end

end Node

end SumLang
