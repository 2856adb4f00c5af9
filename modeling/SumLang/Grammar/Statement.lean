import SumLang.Grammar.Expression

/-! Rules for statements.

    Program   = Statement*
    Statement = Function | If | CaseTest | Enum | Declaration | Return | Print | Expression ";"
    Block     = "{" Statement* "}"
    Function  = "func" Prototype Block
    Prototype = NAME Formals "->" Type
    Formals   = "(" (NAME ":" Type ("," NAME ":" Type)*)? ")"
    If        = "if" Expression Block
    CaseTest  = "if" "let" NAME ":" Type "=" "." NAME Formals? Block
    Enum      = "enum" NAME "{" ("case" NAME Formals? ";")* "}"
    Declaration = ("let" | "var") NAME ":" Type ("=" (Expression | "." NAME Arguments?))? ";"
    Return    = "return" Expression ";"
    Print     = "print" Arguments ";"
-/
namespace SumLang.Parser

/-- A typed name, which is never mutable. -/
def formal : Parser Variable := do
  let name ← identifier
  mark .colon ":"
  let type ← typeName
  return ⟨.immutable, type, name⟩

/-- The formals of a list that is not empty, with the parenthesis that closes it. -/
def formalItems : Nat → Parser (List Variable)
  | 0 => fail .identifier none none
  | fuel + 1 => do
    let v ← formal
    if ← take? .comma then return v :: (← formalItems fuel)
    else do
      mark .rightParen ")"
      return [v]

def formals : Parser (List Variable) := do
  mark .leftParen "("
  if ← isAt .rightParen then do
    advance
    return []
  else fun c => formalItems c.fuel c

def optionalFormals : Parser (List Variable) := do
  if ← isAt .leftParen then formals else return []

def prototype : Parser Prototype := do
  let name ← identifier
  let formals ← formals
  mark .arrow "->"
  let result ← typeName
  return ⟨name, formals, result⟩

/-- The construction of a case of the declared type. A built-in type has no cases. -/
def construction (type : String) : Parser Node := do
  if isBuiltinType type then
    fail .enumeration none
      (some ("'.case' construction needs an enum type, not '" ++ type ++ "'"))
  else do
    mark .period "."
    let case ← identifier
    if ← isAt .leftParen then return .construct type case (← arguments)
    else return .construct type case []

def mutability : Parser Mutability := do
  if ← take? .letWord then return .immutable
  else if ← take? .varWord then return .mutable
  else fail .declaration none none

def declaration : Parser Node := do
  let m ← mutability
  let name ← identifier
  mark .colon ":"
  let type ← typeName
  let v : Variable := ⟨m, type, name⟩
  if ← take? .semicolon then return .declare v
  else do
    mark .equal "="
    let value ← if ← isAt .period then construction type else expression
    statementEnd
    return .assign v value

def returnStatement : Parser Node := do
  expect .returnWord .returnWord none
  let value ← expression
  statementEnd
  return .yield value

def printStatement : Parser Node := do
  expect .printWord .printWord none
  let values ← arguments
  statementEnd
  return .print values

def enumCase (enum : String) : Parser EnumCase := do
  let name ← identifier
  let values ← optionalFormals
  statementEnd
  return ⟨enum, name, values⟩

def enumCases (enum : String) : Nat → Parser (List EnumCase)
  | 0 => fail .identifier none none
  | fuel + 1 => do
    if ← take? .rightBrace then return []
    else do
      expect .caseWord .character (some "'case' or '\x7d'")
      let c ← enumCase enum
      return c :: (← enumCases enum fuel)

def enumDefinition : Parser Node := do
  expect .enumWord .character (some "'enum'")
  let name ← identifier
  mark .leftBrace "\x7b"
  let cases ← fun c => enumCases name c.fuel c
  return .enumeration ⟨name, cases⟩

def functionWith (block : Parser (List Node)) : Parser Node := do
  expect .funcWord .character (some "'func'")
  let p ← prototype
  return .function p (← block)

def branchWith (block : Parser (List Node)) : Parser Node := do
  expect .ifWord .character (some "'if'")
  let condition ← expression
  return .branch condition (← block)

/-- A case test with a body read by `block`. A built-in type has no cases to test. -/
def caseTestWith (block : Parser (List Node)) : Parser Node := do
  expect .ifWord .character (some "'if'")
  expect .letWord .declaration (some "'let'")
  let name ← identifier
  mark .colon ":"
  let type ← typeName
  if isBuiltinType type then
    fail .enumeration none
      (some ("'if let' tests an enum-typed variable, not '" ++ type ++ "'"))
  else do
    mark .equal "="
    mark .period "."
    let case ← identifier
    let bindings ← optionalFormals
    return .caseTest ⟨.immutable, type, name⟩ case bindings (← block)

def expressionStatement : Parser Node := do
  let e ← expression
  statementEnd
  return e

mutual

def statementWith : Nat → Parser Node
  | 0 => fail .expression none none
  | fuel + 1 => do
    match (← peek).bind Token.symbol? with
    | some .funcWord => functionWith (blockWith fuel)
    | some .ifWord =>
      if ← isNext .letWord then caseTestWith (blockWith fuel) else branchWith (blockWith fuel)
    | some .enumWord => enumDefinition
    | some .letWord | some .varWord => declaration
    | some .returnWord => returnStatement
    | some .printWord => printStatement
    | _ => expressionStatement

def blockWith : Nat → Parser (List Node)
  | 0 => fail .expression none none
  | fuel + 1 => do
    mark .leftBrace "\x7b"
    statementsWith fuel

def statementsWith : Nat → Parser (List Node)
  | 0 => fail .expression none none
  | fuel + 1 => do
    if ← take? .rightBrace then return []
    else if (← peek).isNone then fail .character (some "'\x7d'") none
    else do
      let s ← statementWith fuel
      return s :: (← statementsWith fuel)

end

def statement : Parser Node := fun c => statementWith c.fuel c

def block : Parser (List Node) := fun c => blockWith c.fuel c

def function : Parser Node := functionWith block

def branch : Parser Node := branchWith block

def caseTest : Parser Node := caseTestWith block

def programWith : Nat → Parser (List Node)
  | 0 => return []
  | fuel + 1 => do
    if (← peek).isNone then return []
    else do
      let s ← statement
      return s :: (← programWith fuel)

def program : Parser (List Node) := fun c => programWith c.fuel c

end SumLang.Parser
