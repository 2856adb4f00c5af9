import SumLang.Grammar.Statement
import SumLang.Token.Scan

/-! Reading of programs from tokens and from text, and the rules of the grammar by name. -/
namespace SumLang

def parse (tokens : List Token) : Except GrammarFault (List Node) :=
  match Parser.program (Cursor.start tokens) with
  | .ok nodes _ => .ok nodes
  | .error fault _ => .error fault

inductive SourceFault where
  | lexical (f : LexFault)
  | grammatical (f : GrammarFault)
deriving DecidableEq, Repr

/-- The program that a text spells. Comments are not part of a program's text. -/
def parseSource (source : String) : Except SourceFault (List Node) :=
  match Token.tokenize source with
  | .error fault => .error (.lexical fault)
  | .ok tokens =>
    match parse tokens with
    | .error fault => .error (.grammatical fault)
    | .ok nodes => .ok nodes

theorem parseSource_of_tokenize {source : String} {tokens : List Token}
    (h : Token.tokenize source = .ok tokens) :
    parseSource source = (parse tokens).mapError .grammatical := by
  simp only [parseSource, h]
  cases parse tokens <;> rfl

theorem parseSource_of_lexFault {source : String} {fault : LexFault}
    (h : Token.tokenize source = .error fault) :
    parseSource source = .error (.lexical fault) := by
  simp only [parseSource, h]

theorem exists_tokens_of_parseSource {source : String} {nodes : List Node}
    (h : parseSource source = .ok nodes) :
    ∃ tokens, Token.tokenize source = .ok tokens ∧ parse tokens = .ok nodes := by
  cases htokens : Token.tokenize source with
  | error fault =>
    rw [parseSource_of_lexFault htokens] at h
    cases h
  | ok tokens =>
    refine ⟨tokens, rfl, ?_⟩
    rw [parseSource_of_tokenize htokens] at h
    cases hparse : parse tokens with
    | error fault =>
      rw [hparse] at h
      cases h
    | ok nodes' =>
      rw [hparse] at h
      cases h
      rfl

inductive Phrase where
  | one (n : Node)
  | many (ns : List Node)
deriving DecidableEq, Repr

inductive Rule where
  | statement
  | block
  | function
  | prototype
  | formals
  | type
  | declaration
  | returnStatement
  | printStatement
  | branch
  | caseTest
  | enumDefinition
  | expression
  | primary
  | arguments
deriving DecidableEq, Repr

def Rule.read : Rule → Parser Phrase
  | statement => return .one (← Parser.statement)
  | block => return .many (← Parser.block)
  | function => return .one (← Parser.function)
  | prototype => return .one (.prototype (← Parser.prototype))
  | formals => return .many ((← Parser.formals).map .declare)
  | type => return .one (.typeName (← Parser.typeName))
  | declaration => return .one (← Parser.declaration)
  | returnStatement => return .one (← Parser.returnStatement)
  | printStatement => return .one (← Parser.printStatement)
  | branch => return .one (← Parser.branch)
  | caseTest => return .one (← Parser.caseTest)
  | enumDefinition => return .one (← Parser.enumDefinition)
  | expression => return .one (← Parser.expression)
  | primary => return .one (← Parser.primary)
  | arguments => return .many (← Parser.arguments)

end SumLang
