import SumLang.Double.Text
import SumLang.Node

/-! The outline of a syntax tree: one line a construct, indented by depth. -/
namespace SumLang

def Variable.outline (v : Variable) : String :=
  v.name ++ ": " ++ v.type

def Variable.outlines (vs : List Variable) : String :=
  ", ".intercalate (vs.map Variable.outline)

/-- A variable with its mutability. -/
def Variable.declaration (v : Variable) : String :=
  (match v.mutability with
    | .immutable => "let "
    | .mutable => "var ") ++ v.outline

def Prototype.outline (p : Prototype) : String :=
  p.name ++ "(" ++ Variable.outlines p.formals ++ ") -> " ++ p.result

def EnumCase.outline (c : EnumCase) : String :=
  "Case: " ++ c.name ++ "(" ++ Variable.outlines c.values ++ ")"

namespace Node

mutual

/-- An expression on one line, every operation in parentheses. A node without a value is named by
its kind. -/
def inline : Node → String
  | integer n => toString n
  | float x => x.toText
  | boolean b => if b then "true" else "false"
  | string s => "\"" ++ s ++ "\""
  | name x => x
  | call f args => f ++ "(" ++ ", ".intercalate (inlineAll args) ++ ")"
  | binary a op b => "(" ++ inline a ++ " " ++ op ++ " " ++ inline b ++ ")"
  | construct e c args => e ++ "." ++ c ++ "(" ++ ", ".intercalate (inlineAll args) ++ ")"
  | program _ => "<ProgramNode>"
  | function _ _ => "<FunctionNode>"
  | prototype _ => "<PrototypeNode>"
  | declare _ => "<VariableNode>"
  | assign _ _ => "<AssignExpression>"
  | yield _ => "<ReturnNode>"
  | print _ => "<PrintNode>"
  | branch _ _ => "<IfStatementNode>"
  | caseTest _ _ _ _ => "<IfLetNode>"
  | typeName _ => "<TypeNode>"
  | enumeration _ => "<EnumDefinitionNode>"
  | enumCase _ => "<EnumCaseDefinitionNode>"

def inlineAll : List Node → List String
  | [] => []
  | n :: ns => inline n :: inlineAll ns

end

/-- A line at a depth of the outline: two blanks a level. -/
def outlineLine (depth : Nat) (text : String) : String :=
  String.ofList (List.replicate (2 * depth) ' ') ++ text

mutual

def outlineLines (depth : Nat) : Node → List String
  | program body => outlineLine depth "Program" :: outlineBlock (depth + 1) body
  | function p body =>
    outlineLine depth ("Function: " ++ p.outline) :: outlineBlock (depth + 1) body
  | prototype p => [outlineLine depth ("Prototype: " ++ p.outline)]
  | declare v => [outlineLine depth ("Variable: " ++ v.declaration)]
  | assign v value => [outlineLine depth ("Assign: " ++ v.declaration ++ " = " ++ value.inline)]
  | yield value => [outlineLine depth ("Return " ++ value.inline)]
  | print values =>
    [outlineLine depth ("Print(" ++ ", ".intercalate (inlineAll values) ++ ")")]
  | branch condition body =>
    outlineLine depth ("If " ++ condition.inline) :: outlineBlock (depth + 1) body
  | caseTest v c bindings body =>
    outlineLine depth
      ("IfLet " ++ v.outline ++ " = ." ++ c ++ "(" ++ Variable.outlines bindings ++ ")") ::
      outlineBlock (depth + 1) body
  | enumeration d =>
    outlineLine depth ("Enum: " ++ d.name) ::
      d.cases.map fun c => outlineLine (depth + 1) c.outline
  | enumCase c => [outlineLine depth c.outline]
  | n => [outlineLine depth ("Expr: " ++ n.inline)]

def outlineBlock (depth : Nat) : List Node → List String
  | [] => []
  | n :: ns => outlineLines depth n ++ outlineBlock depth ns

end

def outline (n : Node) : String :=
  "\n".intercalate (outlineLines 0 n)

end Node

end SumLang
