import SumLang.Proofs.MaximalMunch
import SumLang.Proofs.Recognition

/-! The trees that programs have. Whatever text is read, its tree is well formed: every node stands
where the grammar puts nodes of its kind, and the names, numbers and operators in it are those of
lexemes. -/
namespace SumLang

open Token (IsIdentifier Spells)

def IsTypeName (x : String) : Prop := isBuiltinType x = true ∨ IsIdentifier x

namespace WellFormed

structure Typed (v : Variable) : Prop where
  name : IsIdentifier v.name
  type : IsTypeName v.type

structure Formal (v : Variable) : Prop extends Typed v where
  immutable : v.mutability = .immutable

structure Prototype (p : SumLang.Prototype) : Prop where
  name : IsIdentifier p.name
  formals : ∀ v ∈ p.formals, Formal v
  result : IsTypeName p.result

structure Case (enum : String) (c : EnumCase) : Prop where
  enum : c.enum = enum
  name : IsIdentifier c.name
  values : ∀ v ∈ c.values, Formal v

structure Enumeration (d : EnumDefinition) : Prop where
  name : IsIdentifier d.name
  cases : ∀ c ∈ d.cases, Case d.name c

/-- What has a value wherever it stands. -/
inductive Expression : Node → Prop where
  | integer {n : Nat} : n < Double.powerOfTen Token.maxIntegerDigits → Expression (.integer n)
  | float {whole fraction : List Char} :
    whole ≠ [] → fraction ≠ [] → (∀ d ∈ whole, d.isDigit = true) →
    (∀ d ∈ fraction, d.isDigit = true) → Expression (.float (Double.ofLexeme whole fraction))
  | string {s : String} : Expression (.string s)
  | boolean {b : Bool} : Expression (.boolean b)
  | name {x : String} : IsIdentifier x → Expression (.name x)
  | call {f : String} {args : List Node} : IsIdentifier f → (∀ a ∈ args, Expression a) →
    Expression (.call f args)
  | binary {a b : Node} {op : String} : op ∈ ["+", "-", "*", "/"] → Expression a → Expression b →
    Expression (.binary a op b)

/-- What a variable of a type may start with. -/
inductive Initializer (type : String) : Node → Prop where
  | expression {e : Node} : Expression e → Initializer type e
  | construction {case : String} {args : List Node} : isBuiltinType type = false →
    IsIdentifier case → (∀ a ∈ args, Expression a) → Initializer type (.construct type case args)

inductive Statement : Node → Prop where
  | function {p : SumLang.Prototype} {body : List Node} : Prototype p →
    (∀ n ∈ body, Statement n) → Statement (.function p body)
  | branch {condition : Node} {body : List Node} : Expression condition →
    (∀ n ∈ body, Statement n) → Statement (.branch condition body)
  | caseTest {v : Variable} {case : String} {bindings : List Variable} {body : List Node} :
    Formal v → isBuiltinType v.type = false → IsIdentifier case → (∀ b ∈ bindings, Formal b) →
    (∀ n ∈ body, Statement n) → Statement (.caseTest v case bindings body)
  | enumeration {d : EnumDefinition} : Enumeration d → Statement (.enumeration d)
  | declare {v : Variable} : Typed v → Statement (.declare v)
  | assign {v : Variable} {value : Node} : Typed v → Initializer v.type value →
    Statement (.assign v value)
  | yield {e : Node} : Expression e → Statement (.yield e)
  | print {args : List Node} : (∀ a ∈ args, Expression a) → Statement (.print args)
  | expression {e : Node} : Expression e → Statement e

end WellFormed

namespace Double

theorem powerOfTen_succ (n : Nat) : powerOfTen (n + 1) = 10 * powerOfTen n := Nat.pow_succ'

theorem powerOfTen_le {m n : Nat} (h : m ≤ n) : powerOfTen m ≤ powerOfTen n :=
  Nat.pow_le_pow_right (by decide) h

end Double

namespace Token

theorem digitsValue_lt {w : List Char} (h : ∀ d ∈ w, d.isDigit = true) :
    Double.digitsValue w < Double.powerOfTen w.length := by
  have hfold (n : Nat) : w.foldl (fun n d => n * 10 + (d.toNat - '0'.toNat)) n <
      (n + 1) * Double.powerOfTen w.length := by
    induction w generalizing n with
    | nil => exact Nat.lt_of_lt_of_eq n.lt_succ_self (Nat.mul_one _).symm
    | cons d w ih =>
      obtain ⟨hd, hw⟩ := List.forall_mem_cons.1 h
      have hdigit : d.toNat - '0'.toNat ≤ 9 := by
        have hdef : d.isDigit = (decide (d.val ≥ '0'.val) && decide (d.val ≤ '9'.val)) := rfl
        rw [hdef, Bool.and_eq_true, decide_eq_true_iff, decide_eq_true_iff] at hd
        have hnine : d.toNat ≤ '9'.toNat := UInt32.le_iff_toNat_le.1 hd.2
        exact Nat.sub_le_of_le_add hnine
      calc _ < (n * 10 + (d.toNat - '0'.toNat) + 1) * Double.powerOfTen w.length := ih hw _
        _ ≤ ((n + 1) * 10) * Double.powerOfTen w.length := Nat.mul_le_mul_right _ (by omega)
        _ = (n + 1) * Double.powerOfTen (d :: w).length := by
          rw [List.length_cons, Double.powerOfTen_succ, Nat.mul_assoc]
  exact Nat.lt_of_lt_of_eq (hfold 0) (by simp)

/-- A word stands for itself or for a truth value. -/
theorem wordContent_cases (w : String) :
    (∃ s, wordContent w = .symbol s w) ∨ ∃ b, wordContent w = .boolean b := by
  unfold wordContent
  split
  · exact .inl ⟨_, rfl⟩
  · split
    · exact .inr ⟨true, rfl⟩
    · split
      · exact .inr ⟨false, rfl⟩
      · exact .inl ⟨_, rfl⟩

namespace Spells

variable {w : List Char} {p : Int}

/-- A token that is a name is a word, and the word is the name. -/
theorem isIdentifier {x : String} (h : Spells w (.symbol .identifier x) p) : IsIdentifier x := by
  generalize ha : Content.symbol .identifier x = a at h
  cases h with
  | @word c cs hc hcs =>
    have hspells := Spells.word hc hcs
    rcases wordContent_cases (String.ofList (c :: cs)) with ⟨s, hs⟩ | ⟨b, hb⟩
    · obtain ⟨rfl, rfl⟩ := Content.symbol.inj (ha.trans hs)
      rw [hs] at hspells
      rwa [IsIdentifier, String.toList_ofList]
    · exact nomatch ha.trans hb
  | mark hm =>
    have hall : ∀ m ∈ marks, m.2.1 ≠ .identifier := by decide
    exact absurd (Content.symbol.inj ha).1.symm (hall _ hm)
  | arrow => simp at ha
  | integer => simp at ha
  | float => simp at ha
  | string => simp at ha

theorem operator_mem {op : String} (h : Spells w (.symbol .operator op) p) :
    op ∈ ["+", "-", "*", "/"] := by
  generalize ha : Content.symbol .operator op = a at h
  cases h with
  | word => exact absurd ha.symm (wordContent_ne_operator _ op)
  | @mark c s _ hm =>
    have hall : ∀ m ∈ marks, m.2.1 = .operator → m.1.toString ∈ ["+", "-", "*", "/"] := by decide
    obtain ⟨hs, hop⟩ := Content.symbol.inj ha
    rw [hop]
    exact hall (c, s, p) hm hs.symm
  | arrow => simp at ha
  | integer => simp at ha
  | float => simp at ha
  | string => simp at ha

theorem integer_lt {n : Int} (h : Spells w (.integer n) p) :
    ∃ k : Nat, n = k ∧ (∀ d ∈ w, d.isDigit = true) ∧ k < Double.powerOfTen w.length := by
  generalize ha : Content.integer n = a at h
  cases h with
  | integer hw => exact ⟨_, Content.integer.inj ha, hw, digitsValue_lt hw⟩
  | @word c cs =>
    rcases wordContent_cases (String.ofList (c :: cs)) with ⟨s, hs⟩ | ⟨b, hb⟩
    · exact nomatch ha.trans hs
    · exact nomatch ha.trans hb
  | arrow => simp at ha
  | mark => simp at ha
  | float => simp at ha
  | string => simp at ha

theorem float_eq {x : Double} (h : Spells w (.float x) p) :
    ∃ whole fraction : List Char, whole ≠ [] ∧ fraction ≠ [] ∧ (∀ d ∈ whole, d.isDigit = true) ∧
      (∀ d ∈ fraction, d.isDigit = true) ∧ x = Double.ofLexeme whole fraction := by
  generalize ha : Content.float x = a at h
  cases h with
  | float hw hf =>
    exact ⟨_, _, List.cons_ne_nil _ _, List.cons_ne_nil _ _, hw, hf, Content.float.inj ha⟩
  | @word c cs =>
    rcases wordContent_cases (String.ofList (c :: cs)) with ⟨s, hs⟩ | ⟨b, hb⟩
    · exact nomatch ha.trans hs
    · exact nomatch ha.trans hb
  | arrow => simp at ha
  | mark => simp at ha
  | integer => simp at ha
  | string => simp at ha

end Spells

/-- A token as the scanner makes it: a text starts with it. -/
def Scanned (t : Token) : Prop := ∃ cs, Takes cs t.text.toList t.content t.precedence

theorem scanned_of_tokenize {source : String} {ts : List Token} (h : tokenize source = .ok ts) :
    ∀ t ∈ ts, t.Scanned := by
  intro t ht
  obtain ⟨q, -, htakes⟩ := (maximalMunch_of_tokenize h).lexemes t ht
  exact ⟨_, htakes⟩

end Token

namespace WellFormed

open Grammar (IsName IsType IsLiteral Is Separated Parenthesized Repeated Braced Optional Operations
  Primary)

variable {t : Token}

theorem isIdentifier_of_isName {x : String} (ht : t.Scanned) (h : IsName t x) :
    IsIdentifier x := by
  obtain ⟨cs, htakes⟩ := ht
  have hspells := htakes.spells
  rw [h] at hspells
  exact hspells.isIdentifier

theorem operator_mem_of_content {op : String} (ht : t.Scanned)
    (h : t.content = .symbol .operator op) : op ∈ ["+", "-", "*", "/"] := by
  obtain ⟨cs, htakes⟩ := ht
  have hspells := htakes.spells
  rw [h] at hspells
  exact hspells.operator_mem

theorem isTypeName_of_isType {x : String} (ht : t.Scanned) (h : IsType t x) : IsTypeName x := by
  cases h with
  | builtin _ hs =>
    refine .inl ?_
    unfold Symbol.builtinType? at hs
    split at hs <;> simp at hs <;> subst hs <;> decide
  | named hx => exact .inr (isIdentifier_of_isName ht hx)

theorem expression_of_isLiteral {e : Node} (ht : t.Scanned) (h : IsLiteral t e) :
    Expression e := by
  obtain ⟨cs, htakes⟩ := ht
  have hspells := htakes.spells
  cases h with
  | integer hn =>
    rw [hn] at hspells
    obtain ⟨k, rfl, hdigits, hlt⟩ := hspells.integer_lt
    exact .integer (Nat.lt_of_lt_of_le hlt (Double.powerOfTen_le (htakes.limit hdigits)))
  | float hx =>
    rw [hx] at hspells
    obtain ⟨whole, fraction, hwhole, hfraction, hw, hf, rfl⟩ := hspells.float_eq
    exact .float hwhole hfraction hw hf
  | string => exact .string
  | boolean => exact .boolean

/-- A grouping of operands is an expression if the operands are. -/
theorem expression_node {g : Grouping} (hfirst : Expression g.first)
    (hrest : ∀ o ∈ g.rest, o.operator ∈ ["+", "-", "*", "/"] ∧ Expression o.operand) :
    Expression g.node := by
  induction g with
  | operand n => exact hfirst
  | operation l op p r ihl ihr =>
    simp only [Grouping.rest, List.forall_mem_append, List.forall_mem_cons] at hrest
    obtain ⟨hl, ⟨hop, hr⟩, hrest⟩ := hrest
    exact .binary hop (ihl hfirst hl) (ihr hr hrest)

mutual

theorem expression_of_primary {ts : List Token} {e : Node} (hts : ∀ t ∈ ts, t.Scanned) :
    Primary ts e → Expression e
  | .name hx => .name (isIdentifier_of_isName (hts _ (by simp)) hx)
  | .call hx hargs =>
    .call (isIdentifier_of_isName (hts _ (by simp)) hx)
      (expressions_of_arguments (fun t ht => hts t (by simp [ht])) hargs)
  | .literal he => expression_of_isLiteral (hts _ (by simp)) he
  | .group _ he _ => expression_of_derivation (fun t ht => hts t (by simp [ht])) he

theorem expression_of_derivation {ts : List Token} {e : Node} (hts : ∀ t ∈ ts, t.Scanned) :
    Grammar.Expression ts e → Expression e
  | .chain hfirst hrest _ =>
    expression_node (expression_of_primary (fun t ht => hts t (by simp [ht])) hfirst)
      (operands_of_operations (fun t ht => hts t (by simp [ht])) hrest)

theorem expressions_of_arguments {ts : List Token} {es : List Node} (hts : ∀ t ∈ ts, t.Scanned) :
    Parenthesized Grammar.Expression ts es → ∀ e ∈ es, Expression e
  | .empty _ _ => by simp
  | .items _ hes _ => expressions_of_separated (fun t ht => hts t (by simp [ht])) hes

theorem expressions_of_separated {ts : List Token} {es : List Node} (hts : ∀ t ∈ ts, t.Scanned) :
    Separated Grammar.Expression ts es → ∀ e ∈ es, Expression e
  | .last he => by simpa using expression_of_derivation hts he
  | .cons he _ hes => List.forall_mem_cons.2
      ⟨expression_of_derivation (fun t ht => hts t (by simp [ht])) he,
        expressions_of_separated (fun t ht => hts t (by simp [ht])) hes⟩

theorem operands_of_operations {ts : List Token} {os : List Operation} (hts : ∀ t ∈ ts, t.Scanned) :
    Operations Primary ts os →
      ∀ o ∈ os, o.operator ∈ ["+", "-", "*", "/"] ∧ Expression o.operand
  | .nil => by simp
  | .cons ht he hos => List.forall_mem_cons.2
      ⟨⟨operator_mem_of_content (hts _ (by simp)) ht,
        expression_of_primary (fun t ht => hts t (by simp [ht])) he⟩,
        operands_of_operations (fun t ht => hts t (by simp [ht])) hos⟩

end

section Lists

variable {α : Type} {item : List Token → α → Prop} {P : α → Prop}

/-- What holds of every item that tokens of a text spell holds of all items of a list. -/
theorem forall_of_separated (hitem : ∀ ts a, (∀ t ∈ ts, t.Scanned) → item ts a → P a)
    {ts : List Token} {as : List α} (hts : ∀ t ∈ ts, t.Scanned) (h : Separated item ts as) :
    ∀ a ∈ as, P a := by
  induction h with
  | last ha => simpa using hitem _ _ hts ha
  | cons ha _ _ ih =>
    exact List.forall_mem_cons.2 ⟨hitem _ _ (fun t ht => hts t (by simp [ht])) ha,
      ih fun t ht => hts t (by simp [ht])⟩

theorem forall_of_parenthesized (hitem : ∀ ts a, (∀ t ∈ ts, t.Scanned) → item ts a → P a)
    {ts : List Token} {as : List α} (hts : ∀ t ∈ ts, t.Scanned) (h : Parenthesized item ts as) :
    ∀ a ∈ as, P a := by
  cases h with
  | empty => simp
  | items _ has _ => exact forall_of_separated hitem (fun t ht => hts t (by simp [ht])) has

theorem forall_of_repeated (hitem : ∀ ts a, (∀ t ∈ ts, t.Scanned) → item ts a → P a)
    {ts : List Token} {as : List α} (hts : ∀ t ∈ ts, t.Scanned) (h : Repeated item ts as) :
    ∀ a ∈ as, P a := by
  induction h with
  | nil => simp
  | cons ha _ ih =>
    exact List.forall_mem_cons.2 ⟨hitem _ _ (fun t ht => hts t (by simp [ht])) ha,
      ih fun t ht => hts t (by simp [ht])⟩

end Lists

variable {ts : List Token}

theorem formal_of_derivation {v : Variable} (hts : ∀ t ∈ ts, t.Scanned)
    (h : Grammar.Formal ts v) : Formal v := by
  cases h with
  | intro hx _ ht =>
    exact ⟨⟨isIdentifier_of_isName (hts _ (by simp)) hx, isTypeName_of_isType (hts _ (by simp)) ht⟩,
      rfl⟩

theorem formals_of_derivation {vs : List Variable} (hts : ∀ t ∈ ts, t.Scanned)
    (h : Grammar.Formals ts vs) : ∀ v ∈ vs, Formal v :=
  forall_of_parenthesized (fun _ _ hus hv => formal_of_derivation hus hv) hts h

theorem formals_of_optional {vs : List Variable} (hts : ∀ t ∈ ts, t.Scanned)
    (h : Optional Grammar.Formals ts vs) : ∀ v ∈ vs, Formal v := by
  cases h with
  | none => simp
  | some h => exact formals_of_derivation hts h

theorem prototype_of_derivation {p : SumLang.Prototype} (hts : ∀ t ∈ ts, t.Scanned)
    (h : Grammar.PrototypeRule ts p) : Prototype p := by
  cases h with
  | intro hx hformals _ ht =>
    exact ⟨isIdentifier_of_isName (hts _ (by simp)) hx,
      formals_of_derivation (fun t ht => hts t (by simp [ht])) hformals,
      isTypeName_of_isType (hts _ (by simp)) ht⟩

theorem case_of_derivation {enum : String} {c : EnumCase} (hts : ∀ t ∈ ts, t.Scanned)
    (h : Grammar.CaseRule enum ts c) : Case enum c := by
  cases h with
  | intro _ hx hvalues _ =>
    exact ⟨rfl, isIdentifier_of_isName (hts _ (by simp)) hx,
      formals_of_optional (fun t ht => hts t (by simp [ht])) hvalues⟩

theorem enumeration_of_derivation {d : EnumDefinition} (hts : ∀ t ∈ ts, t.Scanned)
    (h : Grammar.EnumRule ts d) : Enumeration d := by
  cases h with
  | intro _ hx hcases =>
    refine ⟨isIdentifier_of_isName (hts _ (by simp)) hx, ?_⟩
    cases hcases with
    | intro _ hcases _ =>
      refine forall_of_repeated (fun _ _ hus hc => case_of_derivation hus hc) ?_ hcases
      exact fun t ht => hts t (by simp [ht])

theorem initializer_of_derivation {type : String} {e : Node} (hts : ∀ t ∈ ts, t.Scanned)
    (h : Grammar.Initializer type ts e) : Initializer type e := by
  cases h with
  | expression he => exact .expression (expression_of_derivation hts he)
  | construction htype _ hx hargs =>
    refine .construction htype (isIdentifier_of_isName (hts _ (by simp)) hx) ?_
    cases hargs with
    | none => simp
    | some hargs => exact expressions_of_arguments (fun t ht => hts t (by simp [ht])) hargs

theorem statement_of_declaration {n : Node} (hts : ∀ t ∈ ts, t.Scanned)
    (h : Grammar.DeclarationRule ts n) : Statement n := by
  cases h with
  | bare _ hx _ ht _ =>
    exact .declare ⟨isIdentifier_of_isName (hts _ (by simp)) hx,
      isTypeName_of_isType (hts _ (by simp)) ht⟩
  | initialized _ hx _ ht _ hvalue _ =>
    exact .assign ⟨isIdentifier_of_isName (hts _ (by simp)) hx,
      isTypeName_of_isType (hts _ (by simp)) ht⟩
      (initializer_of_derivation (fun t ht => hts t (by simp [ht])) hvalue)

mutual

theorem statement_of_derivation {ts : List Token} {n : Node} (hts : ∀ t ∈ ts, t.Scanned) :
    Grammar.Statement ts n → Statement n
  | .function (.intro _ hp hbody) =>
    .function (prototype_of_derivation (fun t ht => hts t (by simp [ht])) hp)
      (statements_of_block (fun t ht => hts t (by simp [ht])) hbody)
  | .branch (.intro _ he hbody) =>
    .branch (expression_of_derivation (fun t ht => hts t (by simp [ht])) he)
      (statements_of_block (fun t ht => hts t (by simp [ht])) hbody)
  | .caseTest (.intro _ _ hx _ ht hbuiltin _ _ hc hbindings hbody) =>
    .caseTest ⟨⟨isIdentifier_of_isName (hts _ (by simp)) hx,
        isTypeName_of_isType (hts _ (by simp)) ht⟩, rfl⟩
      hbuiltin (isIdentifier_of_isName (hts _ (by simp)) hc)
      (formals_of_optional (fun t ht => hts t (by simp [ht])) hbindings)
      (statements_of_block (fun t ht => hts t (by simp [ht])) hbody)
  | .enumeration hd => .enumeration (enumeration_of_derivation hts hd)
  | .declaration hn => statement_of_declaration hts hn
  | .yield _ he _ => .yield (expression_of_derivation (fun t ht => hts t (by simp [ht])) he)
  | .print _ hargs _ => .print (expressions_of_arguments (fun t ht => hts t (by simp [ht])) hargs)
  | .expression he _ => .expression (expression_of_derivation (fun t ht => hts t (by simp [ht])) he)

theorem statements_of_block {ts : List Token} {ns : List Node} (hts : ∀ t ∈ ts, t.Scanned) :
    Grammar.Block ts ns → ∀ n ∈ ns, Statement n
  | .intro _ hns _ => statements_of_program (fun t ht => hts t (by simp [ht])) hns

theorem statements_of_program {ts : List Token} {ns : List Node} (hts : ∀ t ∈ ts, t.Scanned) :
    Grammar.Program ts ns → ∀ n ∈ ns, Statement n
  | .nil => by simp
  | .cons hn hns => List.forall_mem_cons.2
      ⟨statement_of_derivation (fun t ht => hts t (by simp [ht])) hn,
        statements_of_program (fun t ht => hts t (by simp [ht])) hns⟩

end

/-- The tree of a text is well formed. -/
theorem of_parseSource {source : String} {nodes : List Node} (h : parseSource source = .ok nodes) :
    ∀ n ∈ nodes, Statement n := by
  obtain ⟨ts, hts, hparse⟩ := exists_tokens_of_parseSource h
  exact statements_of_program (Token.scanned_of_tokenize hts) (program_of_parse hparse)

end WellFormed

end SumLang
