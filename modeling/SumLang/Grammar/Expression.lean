import SumLang.Grammar.Cursor
import SumLang.Node.Equality

/-! Rules for expressions.

    Expression = Primary (OPERATOR Primary)*
    Primary    = NAME | NAME Arguments | LITERAL | "(" Expression ")"
    Arguments  = "(" (Expression ("," Expression)*)? ")"
-/
namespace SumLang.Parser

def peekOperator : Parser (Option (String × Int)) := fun c =>
  match c.rest with
  | ⟨.symbol .operator v, _, _, p⟩ :: _ => .ok (some (v, p)) c
  | _ => .ok none c

def bindsTighter (precedence : Int) : Parser Bool := do
  match ← peekOperator with
  | some (_, p) => return precedence < p
  | none => return false

mutual

def expressionWith : Nat → Parser Node
  | 0 => fail .expression none none
  | fuel + 1 => do
    let left ← primaryWith fuel
    operationsWith fuel 0 left

/-- Extends the operand read last by the operators that bind at least as tightly as `least`. Where
the operator after a right operand binds tighter, that operand is extended first. -/
def operationsWith : Nat → Int → Node → Parser Node
  | 0, _, _ => fail .expression none none
  | fuel + 1, least, left => do
    match ← peekOperator with
    | none => return left
    | some (op, precedence) =>
      if precedence < least then return left
      else do
        advance
        let operand ← primaryWith fuel
        let right ← if ← bindsTighter precedence then operationsWith fuel (precedence + 1) operand
          else pure operand
        operationsWith fuel least (.binary left op right)

def primaryWith : Nat → Parser Node
  | 0 => fail .expression none none
  | fuel + 1 => do
    match (← peek).map Token.content with
    | some (.symbol .identifier x) => do
      advance
      if ← isAt .leftParen then return .call x (← argumentsWith fuel) else return .name x
    | some (.integer n) => do
      advance
      return .integer n
    | some (.float x) => do
      advance
      return .float x
    | some (.string s) => do
      advance
      return .string s
    | some (.boolean b) => do
      advance
      return .boolean b
    | some (.symbol .leftParen _) => do
      advance
      let e ← expressionWith fuel
      mark .rightParen ")"
      return e
    | _ => fail .expression none none

def argumentsWith : Nat → Parser (List Node)
  | 0 => fail .expression none none
  | fuel + 1 => do
    mark .leftParen "("
    if ← isAt .rightParen then do
      advance
      return []
    else itemsWith fuel

/-- The expressions of a list that is not empty, with the parenthesis that closes it. -/
def itemsWith : Nat → Parser (List Node)
  | 0 => fail .expression none none
  | fuel + 1 => do
    let e ← expressionWith fuel
    if ← take? .comma then return e :: (← itemsWith fuel)
    else do
      mark .rightParen ")"
      return [e]

end

def expression : Parser Node := fun c => expressionWith c.fuel c

def primary : Parser Node := fun c => primaryWith c.fuel c

def arguments : Parser (List Node) := fun c => argumentsWith c.fuel c

end SumLang.Parser
