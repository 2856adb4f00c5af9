import SumLang.Comment
import SumLang.Grammar
import SumLang.Lowering
import SumLang.Options

/-! From source text to the text of a C file. -/
namespace SumLang

inductive Fault where
  | source (f : SourceFault)
  | lowering (f : LoweringFault)
deriving DecidableEq, Repr

namespace Fault

def diagnostic : Fault → Diagnostic
  | source (.lexical f) => f.diagnostic
  | source (.grammatical f) => f.diagnostic
  | lowering f => f.diagnostic

/-- Whether the fault lies beyond what programs are checked for: a limit of the numbers, or a tree
that no program has. -/
def isInternal : Fault → Bool
  | source (.lexical (.integerTooLong _)) => true
  | lowering (.unknownOperator _) => true
  | lowering .valueMissing => true
  | _ => false

end Fault

/-- A compiled source text with what each stage made of it. -/
structure Compilation where
  filename : String := ""
  source : String := ""
  stripped : String := ""
  tokens : List Token := []
  program : Option (List Node) := none
  code : String := ""
  dialect : Dialect := .c
deriving DecidableEq, Repr

/-- The text that is read as tokens. -/
def Options.prepare (o : Options) (source : String) : String :=
  if o.stripComments then Comment.strip source else source

def compile (o : Options) (filename source : String) : Except Fault Compilation := do
  let stripped := o.prepare source
  let tokens ← (Token.tokenize stripped).mapError (.source ∘ .lexical)
  let nodes ← (parse tokens).mapError (.source ∘ .grammatical)
  let code ← (generate o.toSettings nodes).mapError .lowering
  return ⟨filename, source, stripped, tokens, some nodes, code, o.dialect⟩

def compileText (o : Options) (source : String) : Except Fault String :=
  (compile o "<input>" source).map Compilation.code

theorem compileText_eq (o : Options) (source : String) :
    compileText o source = ((parseSource (o.prepare source)).mapError .source >>= fun nodes =>
      (generate o.toSettings nodes).mapError .lowering) := by
  rw [compileText, compile]
  cases htokens : Token.tokenize (o.prepare source) with
  | error fault => rw [parseSource_of_lexFault htokens]; rfl
  | ok tokens =>
    rw [parseSource_of_tokenize htokens]
    change Except.map Compilation.code ((parse tokens).mapError _ >>= _) = _
    cases parse tokens with
    | error fault => rfl
    | ok nodes =>
      change Except.map Compilation.code ((generate o.toSettings nodes).mapError _ >>= _) =
        (generate o.toSettings nodes).mapError _
      cases generate o.toSettings nodes <;> rfl

namespace Compilation

/-- A note on the comments removed, if there were any. -/
def strippedNote (source : String) : List String :=
  match Comment.count source with
  | 0 => []
  | n => ["Stripped " ++ toString n ++ " comment(s)"]

def registeredNote (l : EnumLayout) : String :=
  "Registered enum " ++ l.name ++ " with cases " ++ Text.quotedList l.caseNames

/-- Notes on the lowering of a program, as far as it gets. -/
def loweringNotes (s : Settings) (nodes : List Node) : List String :=
  let generated := match lowerToLines s nodes with
    | .ok lines => ["Generated " ++ toString lines.length ++ " lines"]
    | .error _ => []
  ("Generating " ++ s.dialect.title ++ " for " ++ toString nodes.length ++ " top-level nodes") ::
    (Registry.empty.accepted (Node.enumerations nodes)).map registeredNote ++ generated

/-- Notes on each stage of a compilation, as far as it gets. -/
def notes (o : Options) (filename source : String) : List String :=
  let stages := match Token.tokenize (o.prepare source) with
    | .error _ => []
    | .ok tokens =>
      ("Lexed " ++ toString tokens.length ++ " tokens") ::
        match parse tokens with
        | .error _ => []
        | .ok nodes =>
          ("Parsed " ++ toString nodes.length ++ " top-level nodes") ::
            loweringNotes o.toSettings nodes
  ("Compiling " ++ filename ++ " (" ++ toString source.length ++ " chars) for " ++
    o.dialect.title) :: (if o.stripComments then strippedNote source else []) ++ stages

end Compilation

end SumLang
