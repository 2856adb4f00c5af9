import SumLang.Proofs.Grouping
import SumLang.Token

/-! The grammar as relations between tokens and what they denote. Nothing here depends on how the
rules are carried out. -/
namespace SumLang.Grammar

abbrev Is (t : Token) (s : Symbol) : Prop := t.isSymbol s = true

abbrev IsName (t : Token) (x : String) : Prop := t.content = .symbol .identifier x

/-- Type = 'Int' | 'Float' | 'String' | 'Bool' | 'Void' | NAME -/
inductive IsType (t : Token) : String → Prop where
  | builtin {s : Symbol} {type : String} : Is t s → s.builtinType? = some type → IsType t type
  | named {x : String} : IsName t x → IsType t x

/-- Literal = INTEGER | FLOAT | STRING | BOOL -/
inductive IsLiteral (t : Token) : Node → Prop where
  | integer {n : Int} : t.content = .integer n → IsLiteral t (.integer n)
  | float {x : Double} : t.content = .float x → IsLiteral t (.float x)
  | string {s : String} : t.content = .string s → IsLiteral t (.string s)
  | boolean {b : Bool} : t.content = .boolean b → IsLiteral t (.boolean b)

section Lists

variable {α : Type} (item : List Token → α → Prop)

/-- Items = item (',' item)* -/
inductive Separated : List Token → List α → Prop where
  | last {ts a} : item ts a → Separated ts [a]
  | cons {ts a comma us as} : item ts a → Is comma .comma → Separated us as →
      Separated (ts ++ comma :: us) (a :: as)

/-- List = '(' (item (',' item)*)? ')' -/
inductive Parenthesized : List Token → List α → Prop where
  | empty {l r} : Is l .leftParen → Is r .rightParen → Parenthesized [l, r] []
  | items {l ts r as} : Is l .leftParen → Separated item ts as → Is r .rightParen →
      Parenthesized (l :: ts ++ [r]) as

/-- Items = item* -/
inductive Repeated : List Token → List α → Prop where
  | nil : Repeated [] []
  | cons {ts a us as} : item ts a → Repeated us as → Repeated (ts ++ us) (a :: as)

/-- Body = '{' item* '}' -/
inductive Braced : List Token → List α → Prop where
  | intro {l ts r as} : Is l .leftBrace → Repeated item ts as → Is r .rightBrace →
      Braced (l :: ts ++ [r]) as

end Lists

inductive Optional {α : Type} (list : List Token → List α → Prop) : List Token → List α → Prop where
  | none : Optional list [] []
  | some {ts as} : list ts as → Optional list ts as

/-- Formal = NAME ':' Type -/
inductive Formal : List Token → Variable → Prop where
  | intro {x name colon t type} : IsName x name → Is colon .colon → IsType t type →
      Formal [x, colon, t] ⟨.immutable, type, name⟩

/-- ArgList = '(' (NAME ':' Type (',' NAME ':' Type)*)? ')' -/
abbrev Formals : List Token → List Variable → Prop := Parenthesized Formal

/-- Prototype = NAME ArgList '->' Type -/
inductive PrototypeRule : List Token → Prototype → Prop where
  | intro {x name ts formals arrow t type} : IsName x name → Formals ts formals →
      Is arrow .arrow → IsType t type → PrototypeRule (x :: ts ++ [arrow, t]) ⟨name, formals, type⟩

/-- Operations = (OPERATOR operand)* -/
inductive Operations (operand : List Token → Node → Prop) : List Token → List Operation → Prop where
  | nil : Operations operand [] []
  | cons {t op ts n us ops} : t.content = .symbol .operator op → operand ts n →
      Operations operand us ops → Operations operand (t :: ts ++ us) (⟨op, t.precedence, n⟩ :: ops)

theorem Operations.append {operand : List Token → Node → Prop} {ts us : List Token}
    {ops rest : List Operation} (h : Operations operand ts ops) (h' : Operations operand us rest) :
    Operations operand (ts ++ us) (ops ++ rest) := by
  induction h with
  | nil => exact h'
  | cons ht hn _ ih => simpa using Operations.cons ht hn ih

mutual

/-- Primary = NAME | NAME ExprList | Literal | '(' Expression ')' -/
inductive Primary : List Token → Node → Prop where
  | name {t x} : IsName t x → Primary [t] (.name x)
  | call {t x ts as} : IsName t x → Parenthesized Expression ts as → Primary (t :: ts) (.call x as)
  | literal {t e} : IsLiteral t e → Primary [t] e
  | group {l ts r e} : Is l .leftParen → Expression ts e → Is r .rightParen →
      Primary (l :: ts ++ [r]) e

/-- Expression = Primary (OPERATOR Primary)*, which denotes the chain grouped by precedence. -/
inductive Expression : List Token → Node → Prop where
  | chain {ts us} {g : Grouping} : Primary ts g.first → Operations Primary us g.rest →
      g.ByPrecedence → Expression (ts ++ us) g.node

end

/-- ExprList = '(' (Expression (',' Expression)*)? ')' -/
abbrev Arguments : List Token → List Node → Prop := Parenthesized Expression

/-- Case = 'case' NAME ArgList? ';' -/
inductive CaseRule (enum : String) : List Token → EnumCase → Prop where
  | intro {k x name ts values stop} : Is k .caseWord → IsName x name → Optional Formals ts values →
      Is stop .semicolon → CaseRule enum (k :: x :: ts ++ [stop]) ⟨enum, name, values⟩

/-- EnumDefinition = 'enum' NAME '{' ('case' NAME ArgList? ';')* '}' -/
inductive EnumRule : List Token → EnumDefinition → Prop where
  | intro {k x name ts cases} : Is k .enumWord → IsName x name → Braced (CaseRule name) ts cases →
      EnumRule (k :: x :: ts) ⟨name, cases⟩

/-- Keyword = 'let' | 'var' -/
inductive IsMutability (t : Token) : Mutability → Prop where
  | immutable : Is t .letWord → IsMutability t .immutable
  | mutable : Is t .varWord → IsMutability t .mutable

/-- What may stand after '=' in a declaration of a type: an expression, or a case of the type, which
then is not built in. -/
inductive Initializer (type : String) : List Token → Node → Prop where
  | expression {ts e} : Expression ts e → Initializer type ts e
  | construction {dot x case ts as} : isBuiltinType type = false → Is dot .period → IsName x case →
      Optional Arguments ts as → Initializer type (dot :: x :: ts) (.construct type case as)

/-- VariableDecl = ('let' | 'var') NAME ':' Type (';' | '=' (EnumConstruction | Expression) ';') -/
inductive DeclarationRule : List Token → Node → Prop where
  | bare {k m x name colon t type stop} : IsMutability k m → IsName x name → Is colon .colon →
      IsType t type → Is stop .semicolon →
      DeclarationRule [k, x, colon, t, stop] (.declare ⟨m, type, name⟩)
  | initialized {k m x name colon t type equal ts value stop} : IsMutability k m → IsName x name →
      Is colon .colon → IsType t type → Is equal .equal → Initializer type ts value →
      Is stop .semicolon →
      DeclarationRule (k :: x :: colon :: t :: equal :: ts ++ [stop])
        (.assign ⟨m, type, name⟩ value)

section Bodies

variable (block : List Token → List Node → Prop)

/-- FunctionDef = 'func' Prototype Block -/
inductive FunctionRule : List Token → Node → Prop where
  | intro {k ts p us body} : Is k .funcWord → PrototypeRule ts p → block us body →
      FunctionRule (k :: ts ++ us) (.function p body)

/-- IfStatement = 'if' Expression Block -/
inductive BranchRule : List Token → Node → Prop where
  | intro {k ts condition us body} : Is k .ifWord → Expression ts condition → block us body →
      BranchRule (k :: ts ++ us) (.branch condition body)

/-- IfLet = 'if' 'let' NAME ':' Type '=' '.' NAME ArgList? Block, with a type that is not built
in. -/
inductive CaseTestRule : List Token → Node → Prop where
  | intro {k l x name colon t type equal dot c case ts bindings us body} :
      Is k .ifWord → Is l .letWord → IsName x name → Is colon .colon → IsType t type →
      isBuiltinType type = false → Is equal .equal → Is dot .period → IsName c case →
      Optional Formals ts bindings → block us body →
      CaseTestRule (k :: l :: x :: colon :: t :: equal :: dot :: c :: ts ++ us)
        (.caseTest ⟨.immutable, type, name⟩ case bindings body)

end Bodies

/-- Statement = FunctionDef | IfLet | IfStatement | EnumDefinition | VariableDecl | Return | Print
| Expression ';' -/
inductive Statement : List Token → Node → Prop where
  | function {ts n} : FunctionRule (Braced Statement) ts n → Statement ts n
  | branch {ts n} : BranchRule (Braced Statement) ts n → Statement ts n
  | caseTest {ts n} : CaseTestRule (Braced Statement) ts n → Statement ts n
  | enumeration {ts d} : EnumRule ts d → Statement ts (.enumeration d)
  | declaration {ts n} : DeclarationRule ts n → Statement ts n
  | yield {k ts e stop} : Is k .returnWord → Expression ts e → Is stop .semicolon →
      Statement (k :: ts ++ [stop]) (.yield e)
  | print {k ts as stop} : Is k .printWord → Arguments ts as → Is stop .semicolon →
      Statement (k :: ts ++ [stop]) (.print as)
  | expression {ts e stop} : Expression ts e → Is stop .semicolon → Statement (ts ++ [stop]) e

/-- Block = '{' Statement* '}' -/
abbrev Block : List Token → List Node → Prop := Braced Statement

/-- Program = Statement* -/
abbrev Program : List Token → List Node → Prop := Repeated Statement

end SumLang.Grammar
