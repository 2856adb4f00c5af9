import SumLang.Proofs.RoundTrip
import SumLang.Proofs.WellFormed

/-! Every well-formed tree is the tree of some text. The text is put together token by token, with a
blank between neighbours so that no two of them run together. -/
namespace SumLang

open Grammar (Is IsName IsType IsMutability Separated Parenthesized Repeated Braced Primary)
open Token (Scans Spells IsIdentifier marks boundary_cons boundary_nil isSymbol_of_content)

/-- Some text scans as tokens that satisfy `P`, whatever stands behind it. -/
def Spellable (P : List Token → Prop) : Prop := ∃ cs, Scans cs P

namespace Spellable

variable {P Q : List Token → Prop}

theorem mono (h : Spellable P) (hPQ : ∀ ts, P ts → Q ts) : Spellable Q := by
  obtain ⟨cs, hcs⟩ := h
  exact ⟨cs, hcs.mono hPQ⟩

theorem nil (h : P []) : Spellable P :=
  ⟨[], fun _ _ _ => ⟨[], h, rfl⟩⟩

/-- Two texts with a blank between them. -/
theorem append (h : Spellable P) (h' : Spellable Q) :
    Spellable fun ts => ∃ us vs, ts = us ++ vs ∧ P us ∧ Q vs := by
  obtain ⟨cs, hcs⟩ := h
  obtain ⟨ds, hds⟩ := h'
  exact ⟨cs ++ ' ' :: ds, hcs.append hds.space (boundary_cons.2 (by decide))⟩

/-- A token in front of a text. -/
theorem cons {R : Token → Prop} (h : Spellable fun ts => ∃ t, ts = [t] ∧ R t) (h' : Spellable Q) :
    Spellable fun ts => ∃ t us, ts = t :: us ∧ R t ∧ Q us := by
  refine (h.append h').mono ?_
  rintro ts ⟨us, vs, rfl, ⟨t, rfl, ht⟩, hvs⟩
  exact ⟨t, vs, rfl, ht, hvs⟩

theorem lexeme {cs : List Char} {a : Content} {p : Int} (h : Spells cs a p)
    (hlimit : ∀ n, a = .integer n → cs.length ≤ Token.maxIntegerDigits) :
    Spellable fun ts => ∃ t, ts = [t] ∧ t.content = a ∧ t.precedence = p :=
  ⟨cs, .lexeme h hlimit⟩

end Spellable

def keywords : List String :=
  ["func", "let", "var", "enum", "case", "Int", "Float", "Void", "Bool", "String", "return",
    "print", "if"]

theorem spells_keyword {w : String} (h : w ∈ keywords) :
    Spells w.toList (Token.wordContent w) (-1) := by
  have hall : ∀ w ∈ keywords, w.toList.head?.any Char.isAlpha = true ∧
      w.toList.tail.all Token.isWordPart = true := by decide
  obtain ⟨halpha, htail⟩ := hall w h
  obtain ⟨c, hc, halpha⟩ := (Option.any_eq_true ..).1 halpha
  have hspells := Spells.word halpha fun d hd =>
    Token.isWordPart_iff.1 (List.all_eq_true.1 htail d hd)
  obtain ⟨cs, hcs⟩ := List.head?_eq_some_iff.1 hc
  rw [hcs, List.tail_cons, ← hcs, String.ofList_toList] at hspells
  exact hspells

/-- Every keyword and every mark can be written. -/
theorem spellable_symbol (s : Symbol) (h : s ≠ .identifier) :
    Spellable fun ts => ∃ t, ts = [t] ∧ Is t s := by
  have hword : ∀ w ∈ keywords, Token.wordContent w = .symbol s w →
      Spellable fun ts => ∃ t, ts = [t] ∧ Is t s := by
    intro w hw hs
    have hspells := spells_keyword hw
    rw [hs] at hspells
    refine (Spellable.lexeme hspells (by simp)).mono ?_
    rintro ts ⟨t, rfl, ht, -⟩
    exact ⟨t, rfl, isSymbol_of_content ht⟩
  have hmark : ∀ m ∈ marks, m.2.1 = s → Spellable fun ts => ∃ t, ts = [t] ∧ Is t s := by
    rintro ⟨c, s, p⟩ hm rfl
    refine (Spellable.lexeme (.mark hm) (by simp)).mono ?_
    rintro ts ⟨t, rfl, ht, -⟩
    exact ⟨t, rfl, isSymbol_of_content ht⟩
  cases s with
  | identifier => exact absurd rfl h
  | arrow =>
    refine (Spellable.lexeme .arrow (by simp)).mono ?_
    rintro ts ⟨t, rfl, ht, -⟩
    exact ⟨t, rfl, isSymbol_of_content ht⟩
  | funcWord => exact hword "func" (by decide) rfl
  | letWord => exact hword "let" (by decide) rfl
  | varWord => exact hword "var" (by decide) rfl
  | enumWord => exact hword "enum" (by decide) rfl
  | caseWord => exact hword "case" (by decide) rfl
  | intWord => exact hword "Int" (by decide) rfl
  | floatWord => exact hword "Float" (by decide) rfl
  | voidWord => exact hword "Void" (by decide) rfl
  | boolWord => exact hword "Bool" (by decide) rfl
  | stringWord => exact hword "String" (by decide) rfl
  | returnWord => exact hword "return" (by decide) rfl
  | printWord => exact hword "print" (by decide) rfl
  | ifWord => exact hword "if" (by decide) rfl
  | operator => exact hmark ('+', .operator, 20) (by decide) rfl
  | equal => exact hmark ('=', .equal, -1) (by decide) rfl
  | colon => exact hmark (':', .colon, -1) (by decide) rfl
  | semicolon => exact hmark (';', .semicolon, -1) (by decide) rfl
  | leftParen => exact hmark ('(', .leftParen, -1) (by decide) rfl
  | rightParen => exact hmark (')', .rightParen, -1) (by decide) rfl
  | leftBrace => exact hmark ('\x7b', .leftBrace, -1) (by decide) rfl
  | rightBrace => exact hmark ('\x7d', .rightBrace, -1) (by decide) rfl
  | comma => exact hmark (',', .comma, -1) (by decide) rfl
  | period => exact hmark ('.', .period, -1) (by decide) rfl

theorem spellable_name {x : String} (h : IsIdentifier x) :
    Spellable fun ts => ∃ t, ts = [t] ∧ IsName t x := by
  refine (Spellable.lexeme h (by simp)).mono ?_
  rintro ts ⟨t, rfl, ht, -⟩
  exact ⟨t, rfl, ht⟩

theorem spellable_type {x : String} (h : IsTypeName x) :
    Spellable fun ts => ∃ t, ts = [t] ∧ IsType t x := by
  rcases h with h | h
  · obtain ⟨s, hs⟩ : ∃ s : Symbol, s.builtinType? = some x := by
      simp only [isBuiltinType, Bool.or_eq_true, beq_iff_eq] at h
      rcases h with (((rfl | rfl) | rfl) | rfl) | rfl
      · exact ⟨.intWord, rfl⟩
      · exact ⟨.floatWord, rfl⟩
      · exact ⟨.stringWord, rfl⟩
      · exact ⟨.boolWord, rfl⟩
      · exact ⟨.voidWord, rfl⟩
    refine (spellable_symbol s ?_).mono ?_
    · rintro rfl
      simp [Symbol.builtinType?] at hs
    · rintro ts ⟨t, rfl, ht⟩
      exact ⟨t, rfl, .builtin ht hs⟩
  · refine (spellable_name h).mono ?_
    rintro ts ⟨t, rfl, ht⟩
    exact ⟨t, rfl, .named ht⟩

section Lists

variable {α : Type} {item : List Token → α → Prop} {as : List α}

theorem spellable_separated (hne : as ≠ []) (h : ∀ a ∈ as, Spellable (item · a)) :
    Spellable (Separated item · as) := by
  induction as with
  | nil => exact absurd rfl hne
  | cons a as ih =>
    obtain ⟨ha, has⟩ := List.forall_mem_cons.1 h
    by_cases hnil : as = []
    · subst hnil
      exact ha.mono fun _ => .last
    · refine (ha.append ((spellable_symbol .comma (by decide)).cons (ih hnil has))).mono ?_
      rintro ts ⟨us, vs, rfl, hus, comma, ws, rfl, hcomma, hws⟩
      exact .cons hus hcomma hws

theorem spellable_parenthesized (h : ∀ a ∈ as, Spellable (item · a)) :
    Spellable (Parenthesized item · as) := by
  have hopen := spellable_symbol .leftParen (by decide)
  have hclose := spellable_symbol .rightParen (by decide)
  by_cases hnil : as = []
  · subst hnil
    refine (hopen.cons hclose).mono ?_
    rintro ts ⟨l, us, rfl, hl, r, rfl, hr⟩
    exact .empty hl hr
  · refine (hopen.cons ((spellable_separated hnil h).append hclose)).mono ?_
    rintro ts ⟨l, us, rfl, hl, vs, ws, rfl, hvs, r, rfl, hr⟩
    exact .items hl hvs hr

theorem spellable_repeated (h : ∀ a ∈ as, Spellable (item · a)) :
    Spellable (Repeated item · as) := by
  induction as with
  | nil => exact .nil .nil
  | cons a as ih =>
    obtain ⟨ha, has⟩ := List.forall_mem_cons.1 h
    refine (ha.append (ih has)).mono ?_
    rintro ts ⟨us, vs, rfl, hus, hvs⟩
    exact .cons hus hvs

theorem spellable_braced (h : ∀ a ∈ as, Spellable (item · a)) :
    Spellable (Braced item · as) := by
  refine ((spellable_symbol .leftBrace (by decide)).cons ((spellable_repeated h).append
    (spellable_symbol .rightBrace (by decide)))).mono ?_
  rintro ts ⟨l, us, rfl, hl, vs, ws, rfl, hvs, r, rfl, hr⟩
  exact .intro hl hvs hr

end Lists

/-- The text of a program, read back. -/
theorem exists_source {nodes : List Node} (h : Spellable (Grammar.Program · nodes)) :
    ∃ source, parseSource source = .ok nodes := by
  obtain ⟨cs, hcs⟩ := h
  refine ⟨String.ofList cs, parseSource_of_program ?_⟩
  rwa [String.toList_ofList]

theorem spellable_of_primary {e : Node} (h : Spellable (Primary · e)) :
    Spellable (Grammar.Expression · e) :=
  h.mono fun _ hts => Chain.expression (g := .operand e) trivial (.operand hts)

namespace WellFormed

/-- An operation is written in parentheses, so that every expression can be an operand. -/
theorem spellable_primary {e : Node} (h : Expression e) : Spellable (Primary · e) := by
  induction h with
  | @integer n hn =>
    have hlen : (toString (n : Int)).toList.length ≤ Token.maxIntegerDigits :=
      length_toString_le (by decide) hn
    refine (Spellable.lexeme (spells_integer n) fun _ _ => hlen).mono ?_
    rintro ts ⟨t, rfl, ht, -⟩
    exact .literal (.integer ht)
  | @float whole fraction hwhole hfraction hw hf =>
    obtain ⟨d, ds, rfl⟩ := List.exists_cons_of_ne_nil hwhole
    obtain ⟨f, fs, rfl⟩ := List.exists_cons_of_ne_nil hfraction
    refine (Spellable.lexeme (.float hw hf) (by simp)).mono ?_
    rintro ts ⟨t, rfl, ht, -⟩
    exact .literal (.float ht)
  | @string s =>
    refine (Spellable.lexeme (spells_string s) (by simp)).mono ?_
    rintro ts ⟨t, rfl, ht, -⟩
    exact .literal (.string ht)
  | @boolean b =>
    refine (Spellable.lexeme (spells_boolean b) (by simp)).mono ?_
    rintro ts ⟨t, rfl, ht, -⟩
    exact .literal (.boolean ht)
  | name hx =>
    refine (spellable_name hx).mono ?_
    rintro ts ⟨t, rfl, ht⟩
    exact .name ht
  | call hf _ ih =>
    have hargs := spellable_parenthesized fun a ha => spellable_of_primary (ih a ha)
    refine ((spellable_name hf).cons hargs).mono ?_
    rintro ts ⟨t, us, rfl, ht, hus⟩
    exact .call ht hus
  | @binary a b op hop _ _ iha ihb =>
    obtain ⟨c, p, rfl, hc, -⟩ := exists_operator hop
    have hoperator := Spellable.lexeme (.mark hc) (by simp)
    refine ((spellable_symbol .leftParen (by decide)).cons ((iha.append (hoperator.cons ihb)).append
      (spellable_symbol .rightParen (by decide)))).mono ?_
    rintro ts ⟨l, us, rfl, hl, vs, ws, rfl, ⟨vs, us, rfl, hvs, t, us, rfl, ⟨ht, -⟩, hus⟩, r, rfl,
      hr⟩
    have hchain := (Chain.operand hvs).operation ht (.operand hus)
    exact .group hl (hchain.expression (by simp [Grouping.ByPrecedence, Grouping.root?])) hr

theorem spellable_expression {e : Node} (h : Expression e) : Spellable (Grammar.Expression · e) :=
  spellable_of_primary (spellable_primary h)

theorem spellable_formal {v : Variable} (h : Formal v) : Spellable (Grammar.Formal · v) := by
  obtain ⟨m, type, name⟩ := v
  obtain rfl : m = .immutable := h.immutable
  refine ((spellable_name h.name).cons ((spellable_symbol .colon (by decide)).cons
    (spellable_type h.type))).mono ?_
  rintro ts ⟨x, us, rfl, hx, colon, us, rfl, hcolon, t, rfl, ht⟩
  exact .intro hx hcolon ht

theorem spellable_formals {vs : List Variable} (h : ∀ v ∈ vs, Formal v) :
    Spellable (Grammar.Formals · vs) :=
  spellable_parenthesized fun v hv => spellable_formal (h v hv)

theorem spellable_prototype {p : SumLang.Prototype} (h : Prototype p) :
    Spellable (Grammar.PrototypeRule · p) := by
  refine ((spellable_name h.name).cons ((spellable_formals h.formals).append
    ((spellable_symbol .arrow (by decide)).cons (spellable_type h.result)))).mono ?_
  rintro ts ⟨x, us, rfl, hx, vs, ws, rfl, hvs, arrow, ws, rfl, harrow, t, rfl, ht⟩
  exact .intro hx hvs harrow ht

theorem spellable_case {enum : String} {c : EnumCase} (h : Case enum c) :
    Spellable (Grammar.CaseRule enum · c) := by
  obtain ⟨owner, name, values⟩ := c
  obtain rfl : owner = enum := h.enum
  refine ((spellable_symbol .caseWord (by decide)).cons ((spellable_name h.name).cons
    ((spellable_formals h.values).append (spellable_symbol .semicolon (by decide))))).mono ?_
  rintro ts ⟨k, us, rfl, hk, x, us, rfl, hx, vs, ws, rfl, hvs, stop, rfl, hstop⟩
  exact .intro hk hx (.some hvs) hstop

theorem spellable_enumeration {d : EnumDefinition} (h : Enumeration d) :
    Spellable (Grammar.EnumRule · d) := by
  refine ((spellable_symbol .enumWord (by decide)).cons ((spellable_name h.name).cons
    (spellable_braced fun c hc => spellable_case (h.cases c hc)))).mono ?_
  rintro ts ⟨k, us, rfl, hk, x, us, rfl, hx, hus⟩
  exact .intro hk hx hus

theorem spellable_mutability (m : Mutability) :
    Spellable fun ts => ∃ t, ts = [t] ∧ IsMutability t m := by
  cases m with
  | immutable =>
    refine (spellable_symbol .letWord (by decide)).mono ?_
    rintro ts ⟨t, rfl, ht⟩
    exact ⟨t, rfl, .immutable ht⟩
  | mutable =>
    refine (spellable_symbol .varWord (by decide)).mono ?_
    rintro ts ⟨t, rfl, ht⟩
    exact ⟨t, rfl, .mutable ht⟩

theorem spellable_initializer {type : String} {e : Node} (h : Initializer type e) :
    Spellable (Grammar.Initializer type · e) := by
  cases h with
  | expression he => exact (spellable_expression he).mono fun _ => .expression
  | construction htype hcase hargs =>
    refine ((spellable_symbol .period (by decide)).cons ((spellable_name hcase).cons
      (spellable_parenthesized fun a ha => spellable_expression (hargs a ha)))).mono ?_
    rintro ts ⟨dot, us, rfl, hdot, x, us, rfl, hx, hus⟩
    exact .construction htype hdot hx (.some hus)

theorem spellable_declare {v : Variable} (h : Typed v) :
    Spellable (Grammar.DeclarationRule · (.declare v)) := by
  refine ((spellable_mutability v.mutability).cons ((spellable_name h.name).cons
    ((spellable_symbol .colon (by decide)).cons ((spellable_type h.type).cons
      (spellable_symbol .semicolon (by decide)))))).mono ?_
  rintro ts ⟨k, us, rfl, hk, x, us, rfl, hx, colon, us, rfl, hcolon, t, us, rfl, ht, stop, rfl,
    hstop⟩
  exact .bare hk hx hcolon ht hstop

theorem spellable_assign {v : Variable} {value : Node} (h : Typed v)
    (hvalue : Initializer v.type value) :
    Spellable (Grammar.DeclarationRule · (.assign v value)) := by
  refine ((spellable_mutability v.mutability).cons ((spellable_name h.name).cons
    ((spellable_symbol .colon (by decide)).cons ((spellable_type h.type).cons
      ((spellable_symbol .equal (by decide)).cons ((spellable_initializer hvalue).append
        (spellable_symbol .semicolon (by decide)))))))).mono ?_
  rintro ts ⟨k, us, rfl, hk, x, us, rfl, hx, colon, us, rfl, hcolon, t, us, rfl, ht, equal, us, rfl,
    hequal, vs, ws, rfl, hvs, stop, rfl, hstop⟩
  exact .initialized hk hx hcolon ht hequal hvs hstop

theorem spellable_caseTest {v : Variable} {case : String} {bindings : List Variable}
    {body : List Node} (hv : Formal v) (htype : isBuiltinType v.type = false)
    (hcase : IsIdentifier case) (hbindings : ∀ b ∈ bindings, Formal b)
    (hbody : ∀ n ∈ body, Spellable (Grammar.Statement · n)) :
    Spellable (Grammar.CaseTestRule Grammar.Block · (.caseTest v case bindings body)) := by
  obtain ⟨m, type, name⟩ := v
  obtain rfl : m = .immutable := hv.immutable
  refine ((spellable_symbol .ifWord (by decide)).cons ((spellable_symbol .letWord (by decide)).cons
    ((spellable_name hv.name).cons ((spellable_symbol .colon (by decide)).cons
      ((spellable_type hv.type).cons ((spellable_symbol .equal (by decide)).cons
        ((spellable_symbol .period (by decide)).cons ((spellable_name hcase).cons
          ((spellable_formals hbindings).append (spellable_braced hbody)))))))))).mono ?_
  rintro ts ⟨k, us, rfl, hk, l, us, rfl, hl, x, us, rfl, hx, colon, us, rfl, hcolon, t, us, rfl, ht,
    equal, us, rfl, hequal, dot, us, rfl, hdot, c, us, rfl, hc, vs, ws, rfl, hvs, hws⟩
  exact .intro hk hl hx hcolon ht htype hequal hdot hc (.some hvs) hws

theorem spellable_statement {n : Node} (h : Statement n) : Spellable (Grammar.Statement · n) := by
  have hstop := spellable_symbol .semicolon (by decide)
  induction h with
  | function hp _ ih =>
    refine ((spellable_symbol .funcWord (by decide)).cons ((spellable_prototype hp).append
      (spellable_braced ih))).mono ?_
    rintro ts ⟨k, us, rfl, hk, vs, ws, rfl, hvs, hws⟩
    exact .function (.intro hk hvs hws)
  | branch hc _ ih =>
    refine ((spellable_symbol .ifWord (by decide)).cons ((spellable_expression hc).append
      (spellable_braced ih))).mono ?_
    rintro ts ⟨k, us, rfl, hk, vs, ws, rfl, hvs, hws⟩
    exact .branch (.intro hk hvs hws)
  | caseTest hv htype hcase hbindings _ ih =>
    exact (spellable_caseTest hv htype hcase hbindings ih).mono fun _ => .caseTest
  | enumeration hd => exact (spellable_enumeration hd).mono fun _ => .enumeration
  | declare hv => exact (spellable_declare hv).mono fun _ => .declaration
  | assign hv hvalue => exact (spellable_assign hv hvalue).mono fun _ => .declaration
  | yield he =>
    refine ((spellable_symbol .returnWord (by decide)).cons
      ((spellable_expression he).append hstop)).mono ?_
    rintro ts ⟨k, us, rfl, hk, vs, ws, rfl, hvs, stop, rfl, hstop⟩
    exact .yield hk hvs hstop
  | print hargs =>
    have hlist := spellable_parenthesized fun a ha => spellable_expression (hargs a ha)
    refine ((spellable_symbol .printWord (by decide)).cons (hlist.append hstop)).mono ?_
    rintro ts ⟨k, us, rfl, hk, vs, ws, rfl, hvs, stop, rfl, hstop⟩
    exact .print hk hvs hstop
  | expression he =>
    refine ((spellable_expression he).append hstop).mono ?_
    rintro ts ⟨vs, ws, rfl, hvs, stop, rfl, hstop⟩
    exact .expression hvs hstop

end WellFormed

/-- The programs that texts are read as are exactly the well-formed ones: whatever is read is well
formed, and every well-formed program has a text that reads as it. -/
theorem exists_parseSource_iff_wellFormed (nodes : List Node) :
    (∃ source, parseSource source = .ok nodes) ↔ ∀ n ∈ nodes, WellFormed.Statement n := by
  constructor
  · rintro ⟨source, h⟩
    exact WellFormed.of_parseSource h
  · intro h
    exact exists_source (spellable_repeated fun n hn => WellFormed.spellable_statement (h n hn))

end SumLang
