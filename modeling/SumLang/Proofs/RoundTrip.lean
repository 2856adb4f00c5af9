import Mathlib.Data.List.Forall2
import Mathlib.Data.Nat.Digits.Defs
import SumLang.Lowering.Statement
import SumLang.Proofs.Recognition
import SumLang.Proofs.Spelling

/-! The text of a lowered expression reads as the same expression. -/
namespace SumLang

open Grammar Token
open Lowering (lower lowerValues joinValues valueText isOperation parenthesized operationText)

/-- The expressions whose text can be read back. A float needs a text without an exponent that
denotes it. -/
inductive Readable : Node → Prop where
  | integer {n : Int} : 0 ≤ n → (toString n).length ≤ maxIntegerDigits → Readable (.integer n)
  | float {x : Double} {whole fraction : List Char} :
    x.toText.toList = whole ++ '.' :: fraction → whole ≠ [] → fraction ≠ [] →
    (∀ d ∈ whole, d.isDigit = true) → (∀ d ∈ fraction, d.isDigit = true) →
    Double.ofLexeme whole fraction = x → Readable (.float x)
  | string {s : String} : Readable (.string s)
  | boolean {b : Bool} : Readable (.boolean b)
  | name {x : String} : IsIdentifier x → Readable (.name x)
  | call {f : String} {args : List Node} : IsIdentifier f → (∀ a ∈ args, Readable a) →
    Readable (.call f args)
  | binary {a b : Node} {op : String} : op ∈ ["+", "-", "*", "/"] → Readable a → Readable b →
    Readable (.binary a op b)

/-! The text of a literal is a lexeme of its value. -/

theorem digitsValue_toDigits (n : Nat) : Double.digitsValue (Nat.toDigits 10 n) = n := by
  have h := Nat.ofDigitChars_ten_toDigits (n := n)
  simp only [Nat.ofDigitChars_eq_foldl, Nat.mul_comm 10] at h
  exact h

theorem spells_integer (n : Nat) : Spells (toString (n : Int)).toList (.integer n) (-1) := by
  obtain ⟨d, ds, hds⟩ := List.exists_cons_of_ne_nil (Nat.toDigits_ne_nil (n := n) (b := 10))
  have hdigit : ∀ x ∈ d :: ds, x.isDigit = true := fun x hx =>
    Nat.isDigit_of_mem_toDigits (b := 10) (n := n) (by decide) (by decide) (by rwa [hds])
  have hvalue := digitsValue_toDigits n
  rw [hds] at hvalue
  have hspells := Spells.integer hdigit
  rw [hvalue] at hspells
  have htext : (toString (n : Int)).toList = Nat.toDigits 10 n := Nat.toList_repr
  rwa [htext, hds]

theorem length_toString_le {n k : Nat} (hk : 0 < k) (h : n < Double.powerOfTen k) :
    (toString (n : Int)).length ≤ k :=
  Nat.repr_length n k hk h

theorem spells_float {text : String} {x : Double} {whole fraction : List Char}
    (htext : text.toList = whole ++ '.' :: fraction) (hwhole : whole ≠ [])
    (hfraction : fraction ≠ []) (hw : ∀ d ∈ whole, d.isDigit = true)
    (hf : ∀ d ∈ fraction, d.isDigit = true)
    (hx : Double.ofLexeme whole fraction = x) : Spells text.toList (.float x) (-1) := by
  obtain ⟨d, ds, rfl⟩ := List.exists_cons_of_ne_nil hwhole
  obtain ⟨f, fs, rfl⟩ := List.exists_cons_of_ne_nil hfraction
  rw [htext, ← hx]
  exact .float hw hf

theorem spells_boolean (b : Bool) :
    Spells (if b then "true" else "false").toList (.boolean b) (-1) := by
  cases b with
  | false => exact @Spells.word 'f' ['a', 'l', 's', 'e'] (by decide) (by simp)
  | true => exact @Spells.word 't' ['r', 'u', 'e'] (by decide) (by simp)

theorem quoted_flatMap_escapeChar (s : List Char) : Quoted (s.flatMap escapeChar) s := by
  induction s with
  | nil => exact .nil
  | cons c s ih =>
    rw [List.flatMap_cons]
    unfold escapeChar
    split
    · exact .escape ih
    · exact .escape ih
    · exact .escape ih
    · exact .escape ih
    · exact .escape ih
    · exact .escape ih
    · next hback hquote hline _ _ _ => exact .plain hquote hline hback ih

theorem spells_string (s : String) : Spells (stringLiteral s).toList (.string s) (-1) := by
  have h := Spells.string (quoted_flatMap_escapeChar s.toList)
  rw [String.ofList_toList] at h
  rw [stringLiteral, String.toList_ofList]
  exact h

/-- The tokens are the operators and operands of a grouped chain. -/
def Chain (g : Grouping) (ts : List Token) : Prop :=
  ∃ us vs, ts = us ++ vs ∧ Primary us g.first ∧ Operations Primary vs g.rest

theorem Chain.expression {g : Grouping} {ts : List Token} (hg : g.ByPrecedence) (h : Chain g ts) :
    Expression ts g.node := by
  obtain ⟨us, vs, rfl, hus, hvs⟩ := h
  exact .chain hus hvs hg

theorem Chain.operand {e : Node} {ts : List Token} (h : Primary ts e) : Chain (.operand e) ts :=
  ⟨ts, [], by simp, h, .nil⟩

theorem Chain.operation {l r : Grouping} {op : String} {ts us : List Token} {t : Token}
    (hl : Chain l ts) (ht : t.content = .symbol .operator op) (hr : Chain r us) :
    Chain (.operation l op t.precedence r) (ts ++ t :: us) := by
  obtain ⟨ts, vs, rfl, hts, hvs⟩ := hl
  obtain ⟨us, ws, rfl, hus, hws⟩ := hr
  exact ⟨ts, vs ++ (t :: us ++ ws), by simp, hts, hvs.append (.cons ht hus hws)⟩

/-- The text scans as the chain of `g`, which is grouped as its operators ask and denotes `e`. -/
structure Rendered (text : String) (e : Node) (g : Grouping) : Prop where
  node : g.node = e
  byPrecedence : g.ByPrecedence
  scans : Scans text.toList (Chain g)

namespace Rendered

variable {text : String} {e : Node} {g : Grouping}

theorem expression (h : Rendered text e g) : Scans text.toList (Expression · e) :=
  h.scans.mono fun _ hts => h.node ▸ hts.expression h.byPrecedence

theorem primary (h : Scans text.toList (Primary · e)) : Rendered text e (.operand e) where
  node := rfl
  byPrecedence := trivial
  scans := h.mono fun _ => .operand

/-- In parentheses an expression is one operand. -/
theorem group (h : Rendered text e g) : Rendered ("(" ++ text ++ ")") e (.operand e) := by
  have hclose : Scans [')'] _ := .lexeme (.mark (c := ')') (s := .rightParen) (p := -1) (by decide))
    (by simp)
  have hscans := (h.expression.append hclose (boundary_cons.2 (by decide))).mark (c := '(')
    (s := .leftParen) (p := -1) (by decide) (by simp)
  refine primary ?_
  rw [String.toList_append, String.toList_append]
  refine hscans.mono ?_
  rintro ts ⟨l, us, rfl, hl, -, us, vs, rfl, hus, r, rfl, hr, -⟩
  exact .group (isSymbol_of_content hl) hus (isSymbol_of_content hr)

/-- An operand with or without parentheses. -/
theorem operand (h : Rendered text e g) (needed : Bool) :
    ∃ g', Rendered (parenthesized needed text) e g' ∧
      g'.root? = if needed then none else g.root? := by
  cases needed with
  | true => exact ⟨_, h.group, rfl⟩
  | false => exact ⟨g, h, rfl⟩

theorem scans_operation {left right op : String} {a b : Node} {l r : Grouping} {c : Char} {p : Int}
    (ha : Rendered left a l) (hb : Rendered right b r) (hop : op = c.toString)
    (hc : (c, .operator, p) ∈ marks) :
    Scans (left ++ " " ++ op ++ " " ++ right).toList (Chain (.operation l op p r)) := by
  have hscans := ha.scans.append (hb.scans.space.mark hc (by simp)).space
    (boundary_cons.2 (by decide))
  have htext : (left ++ " " ++ op ++ " " ++ right).toList =
      left.toList ++ ' ' :: c :: ' ' :: right.toList := by
    simp [hop]
  rw [htext, hop]
  refine hscans.mono ?_
  rintro ts ⟨us, vs, rfl, hus, t, ws, rfl, ht, rfl, hws⟩
  exact hus.operation ht hws

theorem operation {left right op : String} {a b : Node} {l r : Grouping} {c : Char} {p : Int}
    (ha : Rendered left a l) (hb : Rendered right b r) (hop : op = c.toString)
    (hc : (c, .operator, p) ∈ marks) (hl : ∀ q ∈ l.root?, p ≤ q) (hr : ∀ q ∈ r.root?, p < q) :
    Rendered (left ++ " " ++ op ++ " " ++ right) (.binary a op b) (.operation l op p r) where
  node := by rw [Grouping.node, ha.node, hb.node]
  byPrecedence := ⟨hl, hr, ha.byPrecedence, hb.byPrecedence⟩
  scans := ha.scans_operation hb hop hc

end Rendered

/-- Arguments with commas between them are read one after the other. -/
theorem scans_separated {texts : List String} {args : List Node}
    (h : List.Forall₂ (fun text a => Scans text.toList (Expression · a)) texts args)
    (hne : args ≠ []) : Scans (", ".intercalate texts).toList (Separated Expression · args) := by
  induction h with
  | nil => exact absurd rfl hne
  | cons hscans hrest ih =>
    cases hrest with
    | nil =>
      rw [String.intercalate_singleton]
      exact hscans.mono fun _ => .last
    | cons =>
      have hscans := hscans.append ((ih (by simp)).space.mark (c := ',') (s := .comma) (p := -1)
        (by decide) (by simp)) (boundary_cons.2 (by decide))
      rw [String.intercalate_cons_of_ne_nil (by simp), String.toList_append, String.toList_append,
        List.append_assoc]
      refine hscans.mono ?_
      rintro ts ⟨us, vs, rfl, hus, comma, ws, rfl, hcomma, -, hws⟩
      exact .cons hus (isSymbol_of_content hcomma) hws

/-- Arguments that can be rendered are rendered one after the other. -/
theorem exists_arguments {s : Settings} {R : String → Node → Prop} {args : List Node}
    (h : ∀ a ∈ args, ∃ text, lower s a = pure (some text) ∧ R text a) :
    ∃ texts, lowerValues s args = pure (texts.map some) ∧ List.Forall₂ R texts args := by
  induction args with
  | nil => exact ⟨[], by simp [lowerValues], .nil⟩
  | cons a args ih =>
    obtain ⟨⟨text, hlower, htext⟩, hargs⟩ := List.forall_mem_cons.1 h
    obtain ⟨texts, hlowers, htexts⟩ := ih hargs
    exact ⟨text :: texts, by simp [lowerValues, hlower, hlowers], .cons htext htexts⟩

theorem Rendered.call {f : String} {args : List Node} {texts : List String}
    (hf : IsIdentifier f)
    (hargs : List.Forall₂ (fun text a => Scans text.toList (Expression · a)) texts args) :
    Rendered (f ++ "(" ++ ", ".intercalate texts ++ ")") (.call f args)
      (.operand (.call f args)) := by
  have hname := Scans.lexeme hf (by simp)
  have hclose : Scans [')'] _ := .lexeme (.mark (c := ')') (s := .rightParen) (p := -1) (by decide))
    (by simp)
  refine primary ?_
  by_cases hne : args = []
  · subst hne
    obtain rfl := List.forall₂_nil_right_iff.1 hargs
    have hscans := hname.append (hclose.mark (c := '(') (s := .leftParen) (p := -1) (by decide)
      (by simp)) (boundary_cons.2 (by decide))
    rw [String.intercalate_nil, String.toList_append, String.toList_append, String.toList_append,
      List.append_assoc, List.append_assoc]
    refine hscans.mono ?_
    rintro ts ⟨us, vs, rfl, ⟨t, rfl, ht, -⟩, l, ws, rfl, hl, -, r, rfl, hr, -⟩
    exact .call ht (.empty (isSymbol_of_content hl) (isSymbol_of_content hr))
  · have hscans := hname.append (((scans_separated hargs hne).append hclose
      (boundary_cons.2 (by decide))).mark (c := '(') (s := .leftParen) (p := -1) (by decide)
      (by simp)) (boundary_cons.2 (by decide))
    rw [String.toList_append, String.toList_append, String.toList_append, List.append_assoc,
      List.append_assoc]
    refine hscans.mono ?_
    rintro ts ⟨us, vs, rfl, ⟨t, rfl, ht, -⟩, l, ws, rfl, hl, -, us', vs', rfl, hus, r, rfl, hr, -⟩
    exact .call ht (.items (isSymbol_of_content hl) hus (isSymbol_of_content hr))

theorem exists_operator {op : String} (h : op ∈ ["+", "-", "*", "/"]) :
    ∃ c p, op = c.toString ∧ (c, .operator, p) ∈ marks ∧ operatorPrecedence? op = some p := by
  have hall : ∀ op ∈ ["+", "-", "*", "/"], ∃ m ∈ marks, op = m.1.toString ∧ m.2.1 = .operator ∧
      operatorPrecedence? op = some m.2.2 := by decide
  obtain ⟨⟨c, s, p⟩, hm, rfl, rfl, hp⟩ := hall op h
  exact ⟨c, p, rfl, hm, hp⟩

/-- The node is lowered to a text that reads as the node, and the text's outermost operation is the
node's. -/
def HasText (s : Settings) (e : Node) : Prop :=
  ∃ text g, lower s e = pure (some text) ∧ Rendered text e g ∧ ∀ q, isOperation q e = g.root?.any q

theorem HasText.lexeme {s : Settings} {e : Node} {text : String} {a : Content}
    (hlower : lower s e = pure (some text)) (ha : Spells text.toList a (-1))
    (hlimit : ∀ n, a = .integer n → text.toList.length ≤ maxIntegerDigits)
    (hprimary : ∀ t : Token, t.content = a → Primary [t] e) (hop : ∀ q, isOperation q e = false) :
    HasText s e := by
  refine ⟨text, _, hlower, .primary ((Scans.lexeme ha hlimit).mono ?_), hop⟩
  rintro ts ⟨t, rfl, ht, -⟩
  exact hprimary t ht

theorem pure_inj {α : Type} {a b : α} (h : (pure a : Lowering α) = pure b) : a = b := by
  have hresult : EStateM.Result.ok a ({} : Memory) = .ok b {} := congrFun h {}
  exact (EStateM.Result.ok.inj hresult).1

theorem text_of_pure {a b : String}
    (h : (pure (some a) : Lowering (Option String)) = pure (some b)) : a = b :=
  Option.some.inj (pure_inj h)

theorem lower_integer {s : Settings} {n : Nat}
    (h : (toString (n : Int)).length ≤ maxIntegerDigits) :
    lower s (.integer n) = pure (some (toString (n : Int))) := by
  have htext : Lowering.integerText n = pure (toString (n : Int)) := if_neg (Nat.not_lt.2 h)
  rw [lower, htext, pure_bind]

theorem joinValues_map_some (texts : List String) :
    joinValues (texts.map some) = pure (", ".intercalate texts) := by
  simp [joinValues, valueText, Function.comp_def]

theorem lower_call {s : Settings} {f : String} {args : List Node} {texts : List String}
    (h : lowerValues s args = pure (texts.map some)) :
    lower s (.call f args) = pure (some (f ++ "(" ++ ", ".intercalate texts ++ ")")) := by
  rw [lower, h, pure_bind, joinValues_map_some, pure_bind]

theorem lower_binary {s : Settings} {a b : Node} {op left right : String} {p : Int}
    (hp : operatorPrecedence? op = some p) (ha : lower s a = pure (some left))
    (hb : lower s b = pure (some right)) :
    lower s (.binary a op b) = pure (some (operationText p a left op b right)) := by
  have hprec : Lowering.precedenceOf op = pure p := by simp [Lowering.precedenceOf, hp]
  rw [lower, hprec, pure_bind, ha, pure_bind, hb, pure_bind]
  rfl

theorem HasText.call {s : Settings} {f : String} {args : List Node}
    (hf : IsIdentifier f) (hargs : ∀ a ∈ args, HasText s a) :
    HasText s (.call f args) := by
  have htexts : ∀ a ∈ args, ∃ text, lower s a = pure (some text) ∧
      Scans text.toList (Expression · a) := by
    intro a ha
    obtain ⟨text, g, hlower, hrendered, -⟩ := hargs a ha
    exact ⟨text, hlower, hrendered.expression⟩
  obtain ⟨texts, hlowers, hscans⟩ := exists_arguments htexts
  exact ⟨_, _, lower_call hlowers, .call hf hscans, fun _ => rfl⟩

theorem HasText.binary {s : Settings} {a b : Node} {op : String} (hop : op ∈ ["+", "-", "*", "/"])
    (ha : HasText s a) (hb : HasText s b) : HasText s (.binary a op b) := by
  obtain ⟨c, p, hchar, hc, hp⟩ := exists_operator hop
  obtain ⟨left, l, hleft, hl, hlroot⟩ := ha
  obtain ⟨right, r, hright, hr, hrroot⟩ := hb
  obtain ⟨l', hl', hlroot'⟩ := hl.operand (isOperation (· < p) a)
  obtain ⟨r', hr', hrroot'⟩ := hr.operand (isOperation (· ≤ p) b)
  -- Parentheses stand exactly where the operand's own operator would not be grouped first.
  have hlp : ∀ q ∈ l'.root?, p ≤ q := by
    intro q hq
    rw [hlroot', hlroot] at hq
    split at hq
    · simp at hq
    · next hany =>
      simp only [Option.any_eq_true, decide_eq_true_eq, not_exists, not_and] at hany
      exact Int.not_lt.1 (hany q hq)
  have hrp : ∀ q ∈ r'.root?, p < q := by
    intro q hq
    rw [hrroot', hrroot] at hq
    split at hq
    · simp at hq
    · next hany =>
      simp only [Option.any_eq_true, decide_eq_true_eq, not_exists, not_and] at hany
      exact Int.not_le.1 (hany q hq)
  refine ⟨_, _, lower_binary hp hleft hright, hl'.operation hr' hchar hc hlp hrp, fun q => ?_⟩
  simp [isOperation, hp, Grouping.root?]

/-- Every readable expression has a text. -/
theorem Readable.hasText (s : Settings) {e : Node} (h : Readable e) : HasText s e := by
  induction h with
  | @integer n hn hlen =>
    obtain ⟨k, rfl⟩ := Int.eq_ofNat_of_zero_le hn
    exact .lexeme (lower_integer hlen) (spells_integer k) (fun _ _ => hlen)
      (fun t ht => .literal (.integer ht)) fun _ => rfl
  | float htext hwhole hfraction hw hf hx =>
    exact .lexeme (by rw [lower]) (spells_float htext hwhole hfraction hw hf hx) (by simp)
      (fun t ht => .literal (.float ht)) fun _ => rfl
  | string =>
    exact .lexeme (by rw [lower]) (spells_string _) (by simp) (fun t ht => .literal (.string ht))
      fun _ => rfl
  | boolean =>
    exact .lexeme (by rw [lower]) (spells_boolean _) (by simp) (fun t ht => .literal (.boolean ht))
      fun _ => rfl
  | name hx => exact .lexeme (by rw [lower]) hx (by simp) (fun t ht => .name ht) fun _ => rfl
  | call hf _ ih => exact .call hf ih
  | binary hop _ _ iha ihb => exact .binary hop iha ihb

/-- The operators that the scanner finds have a precedence. -/
theorem nonnegPrecedence_scan (source : String) : Parser.NonnegPrecedence (scan source).1 := by
  intro t ht hop
  obtain ⟨q, htakes⟩ := exists_takes_of_mem ht
  obtain ⟨x, hx⟩ := exists_content_of_isSymbol hop
  have hspells := htakes.spells
  rw [hx] at hspells
  exact hspells.precedence_nonneg

/-- A text that scans as a program reads as that program. -/
theorem parseSource_of_program {source : String} {nodes : List Node}
    (h : Scans source.toList (Program · nodes)) : parseSource source = .ok nodes := by
  obtain ⟨ts, hts, hscan⟩ := h 0 [] boundary_nil
  have hsource : scan source = (ts, none) := by
    rw [scan, ← List.append_nil source.toList, hscan, scanFrom_nil, List.append_nil]
  have hn := nonnegPrecedence_scan source
  rw [hsource] at hn
  rw [parseSource, tokenize, hsource]
  simp only [parse_of_program hts hn]

/-- A text that scans as an expression is, with a semicolon behind it, the program of that
expression. -/
theorem parseSource_of_scans {text : String} {e : Node} (h : Scans text.toList (Expression · e)) :
    parseSource (text ++ ";") = .ok [e] := by
  have hstop : Scans [';'] _ := .lexeme (.mark (c := ';') (s := .semicolon) (p := -1) (by decide))
    (by simp)
  refine parseSource_of_program ?_
  rw [String.toList_append]
  refine (h.append hstop (boundary_cons.2 (by decide))).mono ?_
  rintro ts ⟨us, vs, rfl, hus, t, rfl, ht, -⟩
  have hprogram : Program (us ++ [t] ++ []) [e] :=
    .cons (.expression hus (isSymbol_of_content ht)) .nil
  rwa [List.append_nil] at hprogram

/-- Lowering an expression that can be read back writes no line and gives a text, which reads as
exactly that expression. -/
theorem parseSource_lower (s : Settings) (e : Node) (h : Readable e) :
    ∃ text, lower s e = pure (some text) ∧ parseSource (text ++ ";") = .ok [e] := by
  obtain ⟨text, g, hlower, hrendered, -⟩ := h.hasText s
  exact ⟨text, hlower, parseSource_of_scans hrendered.expression⟩

/-- The expression `f(a - (b - 1), "\"\n") * 0.5`, where the parentheses are needed. -/
theorem parseSource_lower_product :
    ∃ text,
      lower {} (.binary (.call "f" [.binary (.name "a") "-" (.binary (.name "b") "-" (.integer 1)),
        .string "\"\n"]) "*" (.float (Double.ofLexeme ['0'] ['5']))) = pure (some text) ∧
      parseSource (text ++ ";") =
        .ok [.binary (.call "f" [.binary (.name "a") "-" (.binary (.name "b") "-" (.integer 1)),
          .string "\"\n"]) "*" (.float (Double.ofLexeme ['0'] ['5']))] := by
  refine parseSource_lower {} _ (.binary (by decide) (.call ?_ ?_) ?_)
  · exact @Spells.word 'f' [] (by decide) (by simp)
  · simp only [List.mem_cons, List.not_mem_nil, or_false, forall_eq_or_imp, forall_eq]
    refine ⟨.binary (by decide) (.name ?_) (.binary (by decide) (.name ?_) ?_), .string⟩
    · exact @Spells.word 'a' [] (by decide) (by simp)
    · exact @Spells.word 'b' [] (by decide) (by simp)
    · exact .integer (by decide) (by decide)
  · exact @Readable.float _ ['0'] ['5'] (by decide) (by simp) (by simp) (by simp) (by simp) rfl

end SumLang
